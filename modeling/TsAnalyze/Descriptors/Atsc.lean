import TsAnalyze.Descriptors.Mpeg

set_option autoImplicit false

namespace TsAnalyze.Descriptors

namespace CType

def captionServiceInfo : CType :=
  [("language", 24), ("digital_cc", 1), ("reserved", 1), ("caption_service_number", 6),
   ("easy_reader", 1), ("wide_aspect_ratio", 1), ("reserved1", 6)]

def contentAdvisoryInfo : CType :=
  [("rating_region", 8), ("rated_dimensions", 8), ("", 48), ("dimensions", 64),
   ("rating_description_length", 8), ("", 56), ("rating_description_text", 64)]

def serviceLocationInfo : CType :=
  [("stream_type", 8), ("reserved", 3), ("elementary_PID", 13), ("ISO_639_language_code", 24)]

def timeShiftedService : CType :=
  [("reserved", 6), ("time_shift", 10), ("reserved1", 4), ("major_channel_number", 10),
   ("minor_channel_number", 10)]

end CType

def atscStuffingMember : List Member :=
  [.mplast .uint8 "ignore"]

def ac3AudioStreamMember : List Member :=
  [.m .uint8 "sample_rate_code" 3, .m .uint8 "bsid" 5, .m .uint8 "bit_rate_code" 6,
   .m .uint8 "surround_mode" 2, .m .uint8 "bsmod" 3, .m .uint8 "num_channels" 4,
   .m .uint8 "full_svc" 1, .m1 .uint8 "langcod", .mif .uint8 "langcod2" "num_channels" 0,
   .m .uint8 "mainid" 3, .m .uint8 "priority" 2, .m .uint8 "reserved" 3, .m .uint8 "textlen" 7,
   .m .uint8 "text_code" 1, .mlv .uint8 "textlen" "text", .m .uint8 "language_flag" 1,
   .m .uint8 "language_flag_2" 1, .m .uint8 "reserved1" 6,
   .mif .uint24 "language" "language_flag" 1, .mif .uint24 "language_2" "language_flag_2" 1,
   .mplast .uint8 "additional_info"]

def captionServiceMember : List Member :=
  [.m .uint8 "reserved" 3, .m .uint8 "number_of_services" 5, .mplast .captionServiceInfo "captions"]

def contentAdvisoryMember : List Member :=
  [.m .uint8 "reserved" 2, .m .uint8 "rating_region_count" 6,
   .mplast .contentAdvisoryInfo "rating_region"]

def extendedChannelNameMember : List Member :=
  [.mplast .uint8 "long_channel_name_text"]

def serviceLocationMember : List Member :=
  [.m .uint16 "reserved" 3, .m .uint16 "PCR_PID" 13, .m1 .uint8 "number_elements",
   .mlv .serviceLocationInfo "number_elements" "service_locations"]

def atscTimeShiftedServiceMember : List Member :=
  [.m .uint8 "reserved" 3, .m .uint8 "number_of_services" 5,
   .mlv .timeShiftedService "number_of_services" "time_shift_services"]

def componentNameMember : List Member :=
  [.mplast .uint8 "component_name_string"]

def dccDepartingRequestMember : List Member :=
  [.m1 .uint8 "dcc_departing_request_type", .m1 .uint8 "dcc_departing_request_text_length",
   .mlv .uint8 "dcc_departing_request_text_length" "dcc_departing_request_text"]

def dccArrivingRequestMember : List Member :=
  [.m1 .uint8 "dcc_arriving_request_type", .m1 .uint8 "dcc_arriving_request_text_length",
   .mlv .uint8 "dcc_arriving_request_text_length" "dcc_arriving_request_text"]

def rcMember : List Member :=
  [.mplast .uint8 "rc_information"]

def genreMember : List Member :=
  [.m .uint8 "reserved" 3, .m .uint8 "attribute_count" 5, .mlv .uint8 "attribute_count" "attribute"]

def privateInformationMember : List Member :=
  [.m1 .uint32 "format_identifier", .mplast .uint8 "private_data_byte"]

def enhancedSignalingMember : List Member :=
  [.m .uint8 "linkage_preference" 2, .m .uint8 "tx_method" 2, .m .uint8 "linked_component_tag" 4]

def enhancedAc3AudioStreamMember : List Member :=
  [.m .uint8 "reserved" 1, .m .uint8 "bsid_flag" 1, .m .uint8 "mainid_flag" 1,
   .m .uint8 "asvc_flag" 1, .m .uint8 "mixinfoexists" 1, .m .uint8 "substream1_flag" 1,
   .m .uint8 "substream2_flag" 1, .m .uint8 "substream3_flag" 1, .m .uint8 "reserved1" 1,
   .m .uint8 "full_service_flag" 1, .m .uint8 "audio_service_type" 3,
   .m .uint8 "number_of_channels" 3, .m .uint8 "language_flag" 1, .m .uint8 "language_flag_2" 1,
   .m .uint8 "bsid" 5, .mif .uint8 "priority_mainid" "mainid_flag" 1,
   .mif .uint8 "asvc" "asvc_flag" 1, .mif .uint8 "substream1" "substream1_flag" 1,
   .mif .uint8 "substream2" "substream2_flag" 1, .mif .uint8 "substream3" "substream3_flag" 1,
   .mif .uint24 "language" "language_flag" 1, .mif .uint24 "language_2" "language_flag_2" 1,
   .mif .uint24 "substream1_lang" "substream1_flag" 1,
   .mif .uint24 "substream2_lang" "substream2_flag" 1,
   .mif .uint24 "substream3_lang" "substream3_flag" 1, .mplast .uint8 "additional_info_byte"]

def foreachEnumAtscDescriptor : List (UInt8 × List Member) :=
  [(0x80, atscStuffingMember), (0x81, ac3AudioStreamMember), (0x86, captionServiceMember),
   (0x87, contentAdvisoryMember), (0xA0, extendedChannelNameMember), (0xA1, serviceLocationMember),
   (0xA2, atscTimeShiftedServiceMember), (0xA3, componentNameMember),
   (0xA8, dccDepartingRequestMember), (0xA9, dccArrivingRequestMember), (0xAA, rcMember),
   (0xAB, genreMember), (0xAD, privateInformationMember), (0xB2, enhancedSignalingMember),
   (0xCC, enhancedAc3AudioStreamMember)]

end TsAnalyze.Descriptors
