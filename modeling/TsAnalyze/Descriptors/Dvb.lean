import TsAnalyze.Descriptors.Mpeg

set_option autoImplicit false

namespace TsAnalyze.Descriptors

namespace CType

def serviceInfo : CType := [("service_id", 16), ("service_type", 8)]

def teletextNode : CType :=
  [("ISO_639_language_code", 24), ("teletext_type", 5), ("teletext_magazine_number", 3),
   ("teletext_page_number", 8)]

def countryCodeNode : CType := [("country_code", 24)]

def mobileHandoverInfo : CType :=
  [("handover_type", 4), ("reserved_for_furture", 3), ("origin_type", 1), ("network_id", 16)]

def eventLinkageInfo : CType :=
  [("target_event_id", 16), ("target_listed", 1), ("event_simulcast", 1), ("reserved", 6)]

def nvodReferenceNode : CType :=
  [("transport_stream_id", 16), ("original_network_id", 16), ("service_id", 16)]

-- an address takes 8 bytes and stands at a multiple of 8
def eventItemNode : CType :=
  [("item_description_length", 8), ("", 56), ("item_description_char", 64), ("item_length", 8),
   ("", 56), ("item_char", 64)]

def contentNode : CType :=
  [("content_nibble_level_1", 4), ("content_nibble_level_2", 4), ("byte", 8)]

def localTimeNode : CType :=
  [("country_code", 24), ("country_region_id", 6), ("reserved", 1),
   ("local_time_offset_polarity", 1), ("local_time_offset", 16), ("time_of_change", 40),
   ("next_time_offset", 16)]

def subtitlingNode : CType :=
  [("ISO_639_language_code", 24), ("subtitling_type", 8), ("composition_page_id", 16),
   ("ancillary_page_id", 16)]

def announcementNode : CType :=
  [("announcement_type", 4), ("reserved_future_use", 1), ("reference_type", 3),
   ("original_network_id", 16), ("transport_stream_id", 16), ("service_id", 16),
   ("component_tag", 8)]

def applicationSignalling : CType :=
  [("reserved", 1), ("application_type", 15), ("reserved1", 3), ("AIT_version_number", 5)]

def tvaId : CType := [("TVA_id", 16), ("reserved", 5), ("running_status", 3)]

end CType

def networkNameMember : List Member :=
  [.mplast .uint8 "text_byte"]

def serviceListMember : List Member :=
  [.mplast .serviceInfo "services"]

def stuffingMember : List Member :=
  [.mplast .uint8 "stuffing_byte"]

def satelliteDeliverySystemMember : List Member :=
  [.m1 .uint32 "frequency", .m1 .uint16 "orbital_position", .m .uint8 "west_east_flag" 1,
   .m .uint8 "polarization" 2, .m .uint8 "roll_off" 2, .m .uint8 "modulation_system" 1,
   .m .uint8 "modulation_type" 2, .m .uint32 "symbol_rate" 28, .m .uint32 "FEC_inner" 4]

def cableDeliverySystemMember : List Member :=
  [.m1 .uint32 "frequency", .m .uint16 "reserved_future_use" 12, .m .uint16 "FEC_outer" 4,
   .m1 .uint8 "modulation", .m .uint32 "symbol_rate" 28, .m .uint32 "FEC_inner" 4]

def vbiDataMember : List Member :=
  [.mploop "vbi_data"]

def vbiTeletextMember : List Member :=
  [.mplast .teletextNode "vbi_teletext"]

def bouquetNameMember : List Member :=
  [.mplast .uint8 "sub_table"]

def serviceMember : List Member :=
  [.m1 .uint8 "service_type", .m1 .uint8 "service_provider_name_length",
   .mlv .uint8 "service_provider_name_length" "provider_name", .m1 .uint8 "service_name_length",
   .mlv .uint8 "service_name_length" "service_name"]

def countryAvailabilityMember : List Member :=
  [.m .uint8 "country_availability_flag" 1, .m .uint8 "reserved_future_use" 7,
   .mplast .countryCodeNode "cuontries"]

def linkageMember : List Member :=
  [.m1 .uint16 "transport_stream_id", .m1 .uint16 "original_network_id", .m1 .uint16 "service_id",
   .m1 .uint8 "linkage_type", .mif .mobileHandoverInfo "mobile_handover" "linkage_type" 0x08,
   .mif .eventLinkageInfo "event_linkage" "linkage_type" 0x0D,
   .mrangelvCustom .extendEventLinkageInfo "extend_event_linkage" "linkage_type" 0x0E 0x1F,
   .mplast .uint8 "private_data_byte"]

def nvodReferenceMember : List Member :=
  [.mplast .nvodReferenceNode "references"]

def timeShiftedServiceMember : List Member :=
  [.m1 .uint8 "reference_service_id"]

def shortEventMember : List Member :=
  [.m .uint32 "ISO_639_language_code" 24, .m1 .uint8 "event_name_length",
   .mlv .uint8 "event_name_length" "event_name_char", .m1 .uint8 "text_length",
   .mlv .uint8 "text_length" "text_char"]

def extendedEventMember : List Member :=
  [.m .uint32 "descriptor_number" 4, .m .uint32 "last_descriptor_number" 4,
   .m .uint32 "ISO_639_language_code" 24, .m1 .uint8 "length_of_items",
   .mlv .eventItemNode "length_of_items" "items", .m1 .uint8 "text_length",
   .mlv .uint8 "text_length" "text_char"]

def timeShiftedEventMember : List Member :=
  [.m1 .uint16 "reference_service_id", .m1 .uint16 "reference_event_id"]

def componentMember : List Member :=
  [.m .uint8 "stream_content_ext" 4, .m .uint8 "stream_content" 4, .m1 .uint8 "component_type",
   .m .uint32 "component_tag" 8, .m .uint32 "ISO_639_language_code" 24, .mplast .uint8 "text_char"]

def mosaicMember : List Member :=
  [.m .uint8 "mosaic_entry_point" 1, .m .uint8 "number_of_horizontal_elementary_cells" 3,
   .m .uint8 "reserved_futrue_use" 1, .m .uint8 "number_of_vertical_elementary_cells" 3]

def streamIdentifierMember : List Member :=
  [.m1 .uint8 "component_tag"]

def caIdentifierMember : List Member :=
  [.mplast .uint16 "CA_system_id"]

def contentMember : List Member :=
  [.mplast .contentNode "contents"]

def parentalRatingMember : List Member :=
  [.mplast .uint32 "countrycode_and_rating"]

def teletextMember : List Member :=
  [.mplast .teletextNode "teletext_infos"]

def telephoneMember : List Member :=
  [.m .uint8 "reserved_future_use" 2, .m .uint8 "foreign_availability" 1,
   .m .uint8 "connection_type" 5, .m .uint8 "reserved_future_use1" 1,
   .m .uint8 "country_prefix_length" 2, .m .uint8 "international_area_code_length" 3,
   .m .uint8 "operator_code_length" 2, .m .uint8 "reserved_future_use2" 1,
   .m .uint8 "national_area_code_length" 3, .m .uint8 "core_number_length" 4,
   .mlv .uint8 "country_prefix_length" "country_prefix_char",
   .mlv .uint8 "international_area_code_length" "international_area_code_char",
   .mlv .uint8 "operator_code_length" "operator_code_char",
   .mlv .uint8 "national_area_code_length" "national_area_code_char",
   .mlv .uint8 "core_number_length" "core_number_char"]

def localTimeOffsetMember : List Member :=
  [.mplast .localTimeNode "time_list"]

def subtitlingMember : List Member :=
  [.mplast .subtitlingNode "subtitle_list"]

def terrestrialDeliverySystemMember : List Member :=
  [.m1 .uint32 "centre_frequency", .m .uint8 "bandwidth" 3, .m .uint8 "priority" 1,
   .m .uint8 "time_slicing_indicator" 1, .m .uint8 "MPE_FEC_indicator" 1,
   .m .uint8 "reserved_future_use" 2, .m .uint8 "constellation" 2,
   .m .uint8 "hierarchy_information" 3, .m .uint8 "code_rate_HP_stream" 3,
   .m .uint8 "code_rate_LP_stream" 3, .m .uint8 "guard_interval" 2,
   .m .uint8 "transmission_mode" 2, .m .uint8 "other_frequency_flag" 1,
   .m1 .uint32 "reserved_future_use1"]

def multilingualNetworkNameMember : List Member :=
  [.mploopCustom .multilingualNode "network_name"]

def multilingualBouquetNameMember : List Member :=
  [.mploopCustom .multilingualNode "bouquet_name"]

def multilingualServiceNameMember : List Member :=
  [.mploopCustom .multilingualServiceNode "service_name"]

def multilingualComponentMember : List Member :=
  [.m1 .uint8 "component_tag", .mploopCustom .multilingualNode "component"]

def privateDataSpecifierMember : List Member :=
  [.m1 .uint32 "private_data_specifier"]

def serviceMoveMember : List Member :=
  [.m1 .uint16 "new_original_network_id", .m1 .uint16 "new_transport_stream_id",
   .m1 .uint16 "new_service_id"]

def shortSmoothingBufferMember : List Member :=
  [.m .uint8 "sb_size" 2, .m .uint8 "sb_leak_rate" 6, .mplast .uint8 "DVB_reserved"]

def frequencyListMember : List Member :=
  [.m .uint8 "reserved_future_use" 6, .m .uint8 "coding_type" 2, .mplast .uint32 "centre_frequency"]

def partialTransportStreamMember : List Member :=
  [.m .uint64 "DVB_reserved_future_use" 2, .m .uint64 "peak_rate" 22,
   .m .uint64 "DVB_reserved_future_use1" 2, .m .uint64 "minimum_overall_smoothing_rate" 22,
   .m .uint64 "DVB_reserved_future_use2" 2, .m .uint64 "maximum_overall_smoothing_buffer" 14]

def dataBroadcastMember : List Member :=
  [.m1 .uint16 "data_broadcast_id", .m1 .uint8 "component_tag", .m1 .uint8 "selector_length",
   .mlv .uint8 "selector_length" "selector_byte", .m .uint32 "ISO_639_language_code" 24,
   .m .uint32 "text_length" 8, .mlv .uint8 "text_length" "text_char"]

def scramblingMember : List Member :=
  [.m1 .uint8 "scrambling_mode"]

def dataBroadcastIdMember : List Member :=
  [.m1 .uint16 "data_broadcast_id", .mplast .uint8 "id_selector_byte"]

def transportStreamMember : List Member :=
  [.mplast .uint8 "byte"]

def dsngMember : List Member :=
  [.mplast .uint8 "byte"]

def pdcMember : List Member :=
  [.m .uint8 "reserved_for_futrue" 4, .m .uint8 "programme_identification_label_h" 4,
   .m1 .uint16 "programme_identification_label"]

def ac3Member : List Member :=
  [.m .uint8 "component_type_flag" 1, .m .uint8 "bsid_flag" 1, .m .uint8 "mainid_flag" 1,
   .m .uint8 "asvc_flag" 1, .m .uint8 "reserved_flags" 4,
   .mif .uint8 "component_type" "component_type_flag" 1, .mif .uint8 "bsid" "bsid_flag" 1,
   .mif .uint8 "mainid" "mainid_flag" 1, .mif .uint8 "asvc" "asvc_flag" 1,
   .mplast .uint8 "additional_info_byte"]

def ancillaryDataMember : List Member :=
  [.m1 .uint8 "ancillary_data_identifier"]

def cellListMember : List Member :=
  [.mplastCustomSub .cellListDescriptor "cell_list"]

def cellFrequencyLinkMember : List Member :=
  [.mplastCustomSub .cellFrequencyLinkDescriptor "cell_frequency_list"]

def announcementSupportMember : List Member :=
  [.m1 .uint16 "announcement_support_indicator", .mplast .announcementNode "announcement_support"]

def applicationSignallingMember : List Member :=
  [.mplast .applicationSignalling "signalling"]

def adaptationFieldDataMember : List Member :=
  [.m1 .uint8 "adaptation_field_data_identifier"]

def serviceIdentifierMember : List Member :=
  [.mplast .uint8 "textual_service_identifier_bytes"]

def serviceAvailabilityMember : List Member :=
  [.m .uint8 "availability_flag" 1, .m .uint8 "reserved" 7, .mplast .uint16 "cell_id"]

def defaultAuthorityMember : List Member :=
  [.mplast .uint8 "default_authority_byte"]

def relatedContentMember : List Member :=
  [.mplast .uint8 "related_content_bytes"]

def tvaIdMember : List Member :=
  [.mplast .tvaId "TVA_ids"]

def contentIdentifierMember : List Member :=
  [.mplast .uint8 "content_identifier_byte"]

def timeSliceFecIdentifierMember : List Member :=
  [.m .uint8 "time_slicing" 1, .m .uint8 "mpe_fec" 2, .m .uint8 "reserved" 2,
   .m .uint8 "frame_size" 3, .m1 .uint8 "max_burst_duration", .m .uint8 "max_average_rate" 4,
   .m .uint8 "time_slice_fec_id" 4, .mplast .uint8 "id_selector_byte"]

def ecmRepetitionRateMember : List Member :=
  [.m1 .uint16 "CA_system_ID", .m1 .uint16 "ECM_repetition_rate",
   .mplast .uint8 "private_data_byte"]

def s2SatelliteDeliverySystemMember : List Member :=
  [.m .uint8 "scrambling_sequence_selector" 1, .m .uint8 "multiple_input_stream_flag" 1,
   .m .uint8 "backwards_compatibility_indicator" 1, .m .uint8 "reserved_future_use" 5,
   .mif .uint24 "scrambling_sequence_index" "scrambling_sequence_selector" 1,
   .mif .uint8 "input_stream_identifier" "multiple_input_stream_flag" 1]

def enhancedAc3Member : List Member :=
  [.m .uint8 "component_type_flag" 1, .m .uint8 "bsid_flag" 1, .m .uint8 "mainid_flag" 1,
   .m .uint8 "asvc_flag" 1, .m .uint8 "mixinfoexists" 1, .m .uint8 "substream1_flag" 1,
   .m .uint8 "substream2_flag" 1, .m .uint8 "substream3_flag" 1,
   .mif .uint8 "component_type" "component_type_flag" 1, .mif .uint8 "bsid" "bsid_flag" 1,
   .mif .uint8 "mainid" "mainid_flag" 1, .mif .uint8 "asvc" "asvc_flag" 1,
   .mif .uint8 "substream1" "substream1_flag" 1, .mif .uint8 "substream2" "substream2_flag" 1,
   .mif .uint8 "substream3" "substream3_flag" 1, .mplast .uint8 "additional_info_byte"]

def dtsMember : List Member :=
  [.m .uint32 "sample_rate_code" 4, .m .uint32 "bit_rate_code" 6, .m .uint32 "nblks" 7,
   .m .uint32 "fsize" 14, .m .uint32 "surround_mode_h" 1, .m .uint8 "surround_mode" 5,
   .m .uint8 "lfe_flag" 1, .m .uint8 "extended_surround_flag" 2,
   .mplast .uint8 "additional_info_byte"]

def aacMember : List Member :=
  [.m1 .uint8 "profile_and_level", .m .uint8 "AAC_type_flag" 1, .m .uint8 "SAOC_DE_flag" 1,
   .m .uint8 "reserved_future_use" 6, .m1 .uint8 "AAC_type", .mplast .uint8 "additional_info_byte"]

def xaitLocationMember : List Member :=
  [.m1 .uint16 "xait_original_network_id", .m1 .uint16 "xait_service_id",
   .m .uint8 "xait_version_number" 5, .m .uint8 "xait_update_policy" 3]

def ftaContentManagementMember : List Member :=
  [.m .uint8 "user_defined" 1, .m .uint8 "reserved_future_use" 3, .m .uint8 "do_not_scramble" 1,
   .m .uint8 "control_remote_access_over_internet" 2, .m .uint8 "do_not_apply_revocation" 1]

def extensionMember : List Member :=
  [.m1 .uint8 "descriptor_tag_extension", .mplast .uint8 "selector_byte"]

def foreachEnumDvbDescriptor : List (UInt8 × List Member) :=
  [(0x40, networkNameMember), (0x41, serviceListMember), (0x42, stuffingMember),
   (0x43, satelliteDeliverySystemMember), (0x44, cableDeliverySystemMember), (0x45, vbiDataMember),
   (0x46, vbiTeletextMember), (0x47, bouquetNameMember), (0x48, serviceMember),
   (0x49, countryAvailabilityMember), (0x4A, linkageMember), (0x4B, nvodReferenceMember),
   (0x4C, timeShiftedServiceMember), (0x4D, shortEventMember), (0x4E, extendedEventMember),
   (0x4F, timeShiftedEventMember), (0x50, componentMember), (0x51, mosaicMember),
   (0x52, streamIdentifierMember), (0x53, caIdentifierMember), (0x54, contentMember),
   (0x55, parentalRatingMember), (0x56, teletextMember), (0x57, telephoneMember),
   (0x58, localTimeOffsetMember), (0x59, subtitlingMember),
   (0x5A, terrestrialDeliverySystemMember), (0x5B, multilingualNetworkNameMember),
   (0x5C, multilingualBouquetNameMember), (0x5D, multilingualServiceNameMember),
   (0x5E, multilingualComponentMember), (0x5F, privateDataSpecifierMember),
   (0x60, serviceMoveMember), (0x61, shortSmoothingBufferMember), (0x62, frequencyListMember),
   (0x63, partialTransportStreamMember), (0x64, dataBroadcastMember), (0x65, scramblingMember),
   (0x66, dataBroadcastIdMember), (0x67, transportStreamMember), (0x68, dsngMember),
   (0x69, pdcMember), (0x6A, ac3Member), (0x6B, ancillaryDataMember), (0x6C, cellListMember),
   (0x6D, cellFrequencyLinkMember), (0x6E, announcementSupportMember),
   (0x6F, applicationSignallingMember), (0x70, adaptationFieldDataMember),
   (0x71, serviceIdentifierMember), (0x72, serviceAvailabilityMember),
   (0x73, defaultAuthorityMember), (0x74, relatedContentMember), (0x75, tvaIdMember),
   (0x76, contentIdentifierMember), (0x77, timeSliceFecIdentifierMember),
   (0x78, ecmRepetitionRateMember), (0x79, s2SatelliteDeliverySystemMember),
   (0x7A, enhancedAc3Member), (0x7B, dtsMember), (0x7C, aacMember), (0x7D, xaitLocationMember),
   (0x7E, ftaContentManagementMember), (0x7F, extensionMember)]

end TsAnalyze.Descriptors
