import TsAnalyze.Descriptors.Mpeg

set_option autoImplicit false

namespace TsAnalyze.Descriptors

namespace CType

def componentControl : CType :=
  [("component_tag", 8), ("digital_copy_control_info", 2), ("maximum_bitrate_flag", 1),
   ("reserved", 5), ("maximum_bitrate", 8)]

def logo1 : CType :=
  [("reserved", 7), ("logo_identifier", 9), ("reserved1", 4), ("logo_version", 12),
   ("download_data_identifier", 16)]

def logo2 : CType := [("reserved", 7), ("logo_identifier", 9)]

def broadcasterId : CType := [("original_network_id", 16), ("broadcaster_id", 8)]

def referenceInfo : CType :=
  [("reference_node_id", 16), ("reference_number", 8), ("last_reference_number", 8)]

def eventGroup : CType := [("service_identifier", 16), ("event_identifier", 16)]

def eventGroupData : CType :=
  [("original_network_identifier", 16), ("transport_stream_identifier", 16),
   ("service_identifier", 16), ("event_identifier", 16)]

def ldtLinkage : CType :=
  [("description_id", 16), ("reserved", 4), ("description_type", 4), ("user_defined", 8)]

def serviceGroupInfo : CType :=
  [("primary_service_identifier", 16), ("seconary_service_identifier", 16)]

def area : CType := [("area_code", 12), ("reserved", 4)]

end CType

def avcVideoMember : List Member :=
  [.m1 .uint8 "AVC_profile", .m .uint8 "set0_constraint_flag" 1,
   .m .uint8 "set1_constraint_flag" 1, .m .uint8 "set2_constraint_flag" 1,
   .m .uint8 "AVC_compatible_flag" 5, .m1 .uint8 "AVC_level", .m .uint8 "AVC_still_picture" 1,
   .m .uint8 "AVC_24_hours_video_flag" 1, .m .uint8 "reserved" 6]

def avcTimingAndHrdMember : List Member :=
  [.m .uint8 "HRD_management_valid_flag" 1, .m .uint8 "reserved" 6,
   .m .uint8 "picture_and_timing_info_present" 1,
   .mif .uint8 "_90kHz_flag" "picture_and_timing_info_present" 1, .mif .uint32 "N" "_90kHz_flag" 0,
   .mif .uint32 "K" "_90kHz_flag" 0,
   .mif .uint32 "time_calculation_unit" "picture_and_timing_info_present" 1,
   .m .uint8 "fixed_flame_late_flag" 1, .m .uint8 "time_POC_flag" 1,
   .m .uint8 "video_display_conversion_flag" 1, .m .uint8 "reserved1" 5]

def hierarchicalTransmissionMember : List Member :=
  [.m .uint8 "reserved" 7, .m .uint8 "hierarchical_level" 1, .m .uint16 "reserved1" 3,
   .m .uint16 "reference_PID" 13]

def digitalCopyControlMember : List Member :=
  [.m .uint8 "digital_copy_control_info" 2, .m .uint8 "maximum_bitrate_flag" 1,
   .m .uint8 "component_control_flag" 1, .m .uint8 "user_defined" 4,
   .mif .uint8 "maximum_bitrate" "maximum_bitrate_flag" 1,
   .mif .uint8 "component_control_length" "component_control_flag" 1,
   .mplast .componentControl "coponents"]

def networkIdentificationMember : List Member :=
  [.m1Uint24 "country_code", .m1 .uint16 "media_type", .m1 .uint16 "network_id",
   .mplast .uint8 "private_data"]

def partialTransportStreamTimeMember : List Member :=
  [.mplast .uint8 "tbd"]

def audioComponentMember : List Member :=
  [.m .uint8 "reserved" 4, .m .uint8 "stream_content" 4, .m1 .uint8 "component_type",
   .m1 .uint8 "component_tag", .m1 .uint8 "stream_type", .m1 .uint8 "simulcast_group_tag",
   .m .uint32 "ES_multi_language_flag" 1, .m .uint32 "main_component_flag" 1,
   .m .uint32 "quality_indicator" 2, .m .uint32 "sampling_rate" 3,
   .m .uint32 "reserved_for_future" 1, .m .uint32 "audio_lang" 1,
   .mif .uint24 "audio_lang2" "ES_multi_language_flag" 1, .mplast .uint8 "text_byte"]

def hyperlinkMember : List Member :=
  [.m1 .uint16 "hyper_linkage_type", .m1 .uint8 "link_destination_type",
   .m1 .uint8 "selector_length", .mlv .uint8 "selector_length" "selector_byte",
   .mplast .uint8 "private_area"]

def targetRegionMember : List Member :=
  [.m1 .uint8 "region_spec_type", .mplast .uint8 "target_region_spec"]

def dataContentMember : List Member :=
  [.m1 .uint16 "data_component_id", .m1 .uint8 "entry_component", .m1 .uint8 "selector_length",
   .mlv .uint8 "selector_length" "selector_byte", .m1 .uint8 "number_of_component_ref",
   .mlv .uint8 "number_of_component_ref" "component_ref", .m .uint32 "lang_code" 24,
   .m .uint32 "text_length" 8, .mlv .uint8 "text_length" "text_char"]

def videoDecodeControlMember : List Member :=
  [.m .uint8 "still_picture_flag" 1, .m .uint8 "sequence_end_code_flag" 1,
   .m .uint8 "video_encode_format" 4, .m .uint8 "reserved" 2]

def downloadContentMember : List Member :=
  [.m .uint8 "reboot" 1, .m .uint8 "add_on" 1, .m .uint8 "compatibility_flag" 1,
   .m .uint8 "module_info_flag" 1, .m .uint8 "text_info_flag" 1, .m .uint8 "reserved1" 3,
   .m1 .uint32 "component_size", .m1 .uint32 "download_id", .m1 .uint32 "time_out_value_DII",
   .m .uint32 "leak_rate" 22, .m .uint32 "reserved2" 2, .m .uint32 "component_tag" 8,
   .mifCustom .compatibilityDescriptor "compat_desc" "compatibility_flag" 1,
   .mifCustom .moduleInfoList "modules" "module_info_flag" 1, .m1 .uint8 "private_data_length",
   .mlv .uint8 "private_data_length" "private_data_byte",
   .mifCustom .textInfo "text" "text_info_flag" 1]

def caEmmTsMember : List Member :=
  [.m1 .uint16 "CA_system_id", .m1 .uint16 "transport_stream_id",
   .m1 .uint16 "original_network_id", .m1 .uint8 "power_supply_period"]

def caContractInfoMember : List Member :=
  [.m1 .uint16 "CA_system_id", .m .uint8 "CA_unit_id" 4, .m .uint8 "num_of_component" 4,
   .mlv .uint8 "num_of_component" "component_tag", .m1 .uint8 "contract_verification_info_length",
   .mlv .uint8 "contract_verification_info_length" "contract_verification_info",
   .m1 .uint8 "fee_name_length", .mlv .uint8 "fee_name_length" "fee_name"]

def caServiceMember : List Member :=
  [.m1 .uint16 "CA_system_id", .m1 .uint8 "ca_broadcaster_group_id", .m1 .uint8 "message_control",
   .mplast .uint16 "service_id"]

def tsInformationMember : List Member :=
  [.m1 .uint8 "remote_control_key_identification", .m .uint8 "length_of_ts_name" 6,
   .m .uint8 "transmission_type_count" 2, .mlv .uint8 "length_of_ts_name" "ts_name_char",
   .mploop "info", .mplast .uint8 "reserved_for_future"]

def extendedBroadcasterMember : List Member :=
  [.m .uint8 "broadcaster_type" 4, .m .uint8 "reserved" 4,
   .m1 .uint16 "terrestrial_broadcaster_ID", .m .uint8 "number_of_affiliation_ID_loop" 4,
   .m .uint8 "number_of_broadcaster_ID" 4,
   .mlv .uint8 "number_of_affiliation_ID_loop" "affiliation_ID",
   .mlv .broadcasterId "number_of_broadcaster_ID" "broadcaster_id", .mplast .uint8 "parivate_data"]

def logoTransmissionMember : List Member :=
  [.m1 .uint8 "logo_transmission_type", .mif .logo1 "logo_iden_1" "logo_transmission_type" 1,
   .mif .logo2 "logo_iden_2" "logo_transmission_type" 2, .mplast .uint8 "logo_char"]

def basicLocalEventMember : List Member :=
  [.m .uint8 "reserved" 4, .m .uint8 "segmentation_mode" 4, .m1 .uint8 "segmentation_info_length",
   .mlv .uint8 "segmentation_info_length" "segmentation_info", .mplast .uint8 "component_tag"]

def referenceMember : List Member :=
  [.m1 .uint16 "information_provider_id", .m1 .uint16 "event_relation_id",
   .mplast .referenceInfo "references"]

def nodeRelationMember : List Member :=
  [.m .uint8 "reference_type" 4, .m .uint8 "external_reference_flag" 1, .m .uint8 "reserved" 3,
   .mif .uint16 "information_provider_id" "external_reference_flag" 1,
   .mif .uint16 "event_relation_id" "external_reference_flag" 1, .m1 .uint16 "reference_node_id",
   .m1 .uint8 "reference_number"]

def shortNodeInformationMember : List Member :=
  [.m .uint32 "lang_code" 24, .m .uint32 "node_name_length" 8,
   .mlv .uint8 "node_name_length" "node_name_char", .m1 .uint8 "text_length",
   .mlv .uint8 "text_length" "text_char"]

def stcReferenceMember : List Member :=
  [.m .uint8 "reserved" 3, .m .uint8 "external_event_flag" 1, .m .uint8 "STC_reference_mode" 4,
   .mif .uint16 "external_event_id" "external_event_flag" 1,
   .mif .uint16 "external_service_id" "external_event_flag" 1,
   .mif .uint16 "external_network_id" "external_event_flag" 1, .mplast .uint8 "references"]

def seriesMember : List Member :=
  [.m1 .uint16 "series_id", .m .uint8 "repeat_label" 4, .m .uint8 "program_pattern" 3,
   .m .uint8 "expire_date_valid_flag" 1, .m1 .uint16 "expire_time", .m1 .uint8 "expire_name",
   .m1 .uint16 "last_expire_number", .mplast .uint8 "series_name_char"]

def eventGroupMember : List Member :=
  [.m .uint8 "group_type" 4, .m .uint8 "event_count" 4,
   .mlv .eventGroup "event_count" "event_groups", .mplast .eventGroupData "private_data"]

def siParameterMember : List Member :=
  [.m1 .uint8 "parameter_version", .m1 .uint16 "update_time", .mploop "parameter"]

def broadcasterNameMember : List Member :=
  [.mplast .uint8 "text_char"]

def componentGroupMember : List Member :=
  [.m .uint8 "component_group_type" 3, .m .uint8 "total_bit_rate_flag" 1,
   .m .uint8 "num_of_group" 4]

def siPrimeTsMember : List Member :=
  [.m1 .uint8 "parameter_version", .m1 .uint16 "update_time", .m1 .uint16 "SI_prime_ts_network_id",
   .m1 .uint16 "SI_prime_transport_stream_id", .mploop "parameter"]

def boardInformationMember : List Member :=
  [.m1 .uint8 "title_length", .mlv .uint8 "title_length" "title", .m1 .uint8 "text_length",
   .mlv .uint8 "text_length" "text"]

def ldtLinkageMember : List Member :=
  [.m1 .uint16 "original_service_id", .m1 .uint16 "transport_stream_id",
   .m1 .uint16 "original_network_id", .mplast .ldtLinkage "linkage"]

def connectedTransmissionMember : List Member :=
  [.m1 .uint16 "connected_transmission_group_id", .m .uint8 "segment_type" 2,
   .m .uint8 "modulation_type_A" 2, .m .uint8 "modulation_type_B" 2, .m .uint8 "reserved" 2,
   .mplast .uint8 "additional_connected_transmission_info"]

def contentAvailabilityMember : List Member :=
  [.m .uint8 "reserved" 1, .m .uint8 "copy_restriction_mode" 1,
   .m .uint8 "image_constraint_token" 1, .m .uint8 "temporal_accumulation_control_bit" 1,
   .m .uint8 "allowable_time_of_temporal_accumulation" 3, .m .uint8 "output_protection_bit" 1,
   .mplast .uint8 "reserved_for_future"]

def compositeMember : List Member :=
  [.m1 .uint8 "sub_descriptor_tag", .m1 .uint8 "sub_descriptor_length",
   .mlv .uint8 "sub_descriptor_length" "data_byte"]

def serviceGroupMember : List Member :=
  [.m .uint8 "service_group_type" 4, .m .uint8 "undefined" 4,
   .mplast .serviceGroupInfo "service_info"]

def carouselCompatibleCompositeMember : List Member :=
  [.mploop "subdescriptor"]

def conditionalPlaybackMember : List Member :=
  [.m1 .uint16 "conditional_playback_system_identifier", .m .uint16 "reserved" 3,
   .m .uint16 "conditional_playback_PID" 13, .mplast .uint8 "private_data"]

def isdbTerrestrialDeliverySystemMember : List Member :=
  [.m .uint16 "area_code" 12, .m .uint16 "guard_interval" 2, .m .uint16 "transmission_mode" 2,
   .mplast .uint16 "frequency"]

def partialReceptionMember : List Member :=
  [.mplast .uint16 "service_id"]

def emergencyInformationMember : List Member :=
  [.m1 .uint16 "service_id", .m .uint8 "start_end_flag" 1, .m .uint8 "signal_level" 1,
   .m .uint8 "reserved" 6, .m1 .uint8 "area_code_length", .mlv .area "area_code_length" "areas" 2]

def dataComponentMember : List Member :=
  [.m1 .uint16 "data_component_id", .mplast .uint8 "additional_identifier_info"]

def systemManagementMember : List Member :=
  [.m1 .uint16 "system_management_id", .mplast .uint8 "additional_identifier_info"]

def foreachEnumIsdbDescriptor : List (UInt8 × List Member) :=
  [(0x28, avcVideoMember), (0x2A, avcTimingAndHrdMember), (0xC0, hierarchicalTransmissionMember),
   (0xC1, digitalCopyControlMember), (0xC2, networkIdentificationMember),
   (0xC3, partialTransportStreamTimeMember), (0xC4, audioComponentMember), (0xC5, hyperlinkMember),
   (0xC6, targetRegionMember), (0xC7, dataContentMember), (0xC8, videoDecodeControlMember),
   (0xC9, downloadContentMember), (0xCA, caEmmTsMember), (0xCB, caContractInfoMember),
   (0xCC, caServiceMember), (0xCD, tsInformationMember), (0xCE, extendedBroadcasterMember),
   (0xCF, logoTransmissionMember), (0xD0, basicLocalEventMember), (0xD1, referenceMember),
   (0xD2, nodeRelationMember), (0xD3, shortNodeInformationMember), (0xD4, stcReferenceMember),
   (0xD5, seriesMember), (0xD6, eventGroupMember), (0xD7, siParameterMember),
   (0xD8, broadcasterNameMember), (0xD9, componentGroupMember), (0xDA, siPrimeTsMember),
   (0xDB, boardInformationMember), (0xDC, ldtLinkageMember), (0xDD, connectedTransmissionMember),
   (0xDE, contentAvailabilityMember), (0xDF, compositeMember), (0xE0, serviceGroupMember),
   (0xF7, carouselCompatibleCompositeMember), (0xF8, conditionalPlaybackMember),
   (0xFA, isdbTerrestrialDeliverySystemMember), (0xFB, partialReceptionMember),
   (0xFC, emergencyInformationMember), (0xFD, dataComponentMember), (0xFE, systemManagementMember)]

end TsAnalyze.Descriptors
