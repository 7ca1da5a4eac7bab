import TsAnalyze.Descriptors.Members

set_option autoImplicit false

namespace TsAnalyze.Descriptors

namespace CType

def uint8 : CType := [("", 8)]

def uint16 : CType := [("", 16)]

def uint24 : CType := [("bits", 24)]

def uint32 : CType := [("", 32)]

def languageNode : CType := [("ISO_639_language_code", 24), ("audio_type", 8)]

def fmcNode : CType := [("ES_ID", 16), ("FlexMuxChannel", 8)]

def muxCodeTableEntry : CType :=
  [("length", 8), ("MuxCode", 4), ("version", 4), ("substructureCount", 8), ("slotCount", 5),
   ("repetitionCount", 3), ("m4MuxChannel", 8), ("numberOfBytes", 8), ("m4MuxChannel", 8),
   ("numberOfBytes", 8), ("m4MuxChannel", 8), ("numberOfBytes", 8), ("m4MuxChannel", 8),
   ("numberOfBytes", 8), ("m4MuxChannel", 8), ("numberOfBytes", 8), ("m4MuxChannel", 8),
   ("numberOfBytes", 8), ("m4MuxChannel", 8), ("numberOfBytes", 8)]

end CType

def videoStreamMember : List Member :=
  [.m .uint8 "multiple_frame_rate_flag" 1, .m .uint8 "frame_rate_code" 4,
   .m .uint8 "MPEG_1_only_flag" 1, .m .uint8 "constrained_parameter_flag" 1,
   .m .uint8 "still_picture_flag" 1, .m1 .uint8 "profile_and_level_indication",
   .m .uint8 "chroma_format" 2, .m .uint8 "frame_rate_extension_flag" 1, .m .uint8 "reserved" 5]

def audioStreamMember : List Member :=
  [.m .uint8 "free_format_flag" 1, .m .uint8 "ID" 1, .m .uint8 "layer" 2,
   .m .uint8 "variable_rate_audio_indicator" 1, .m .uint8 "reserved" 3]

def hierarchyMember : List Member :=
  [.m .uint8 "reserved" 4, .m .uint8 "hierarchy_type" 4, .m .uint8 "reserved1" 2,
   .m .uint8 "hierarchy_layer_index" 6, .m .uint8 "reserved2" 2,
   .m .uint8 "hierarchy_embedded_layer_index" 6, .m .uint8 "reserved3" 2,
   .m .uint8 "hierarchy_channel" 6]

def registrationMember : List Member :=
  [.m1 .uint32 "format_identifier", .m1 .uint8 "additional_identification_info"]

def dataStreamAlignmentMember : List Member :=
  [.m1 .uint8 "alignment_type"]

def targetBackgroundGridMember : List Member :=
  [.m .uint32 "horizontal_size" 14, .m .uint32 "vertical_size" 14,
   .m .uint32 "aspect_ratio_information" 4]

def videoWindowMember : List Member :=
  [.m .uint32 "horizontal_offset" 14, .m .uint32 "vertical_offset" 14,
   .m .uint32 "window_priority" 4]

def caMember : List Member :=
  [.m1 .uint16 "CA_system_ID", .m .uint16 "reserved" 3, .m .uint16 "CA_PID" 13,
   .mplast .uint8 "private_data_byte"]

def iso639LanguageMember : List Member :=
  [.mplast .languageNode "languages"]

def systemClockMember : List Member :=
  [.m .uint8 "external_clock_reference_indicator" 1, .m .uint8 "reserved" 1,
   .m .uint8 "clock_accuracy_integer" 6, .m .uint8 "clock_accuracy_exponent" 3,
   .m .uint8 "reserved1" 5]

def multiplexBufferUtilizationMember : List Member :=
  [.m .uint16 "bound_valid_flag" 1, .m .uint16 "LTW_offset_lower_bound" 15,
   .m .uint16 "reserved" 1, .m .uint16 "LTW_offset_upper_bound" 15]

def copyrightMember : List Member :=
  [.m1 .uint32 "copyright_identifier", .mplast .uint8 "additional_copyright_info"]

def maximumBitrateMember : List Member :=
  [.m .uint8 "reserved" 2, .m .uint8 "maximum_bitrate_h" 6, .m1 .uint8 "maximum_bitrate_l"]

def privateDataIndicatorMember : List Member :=
  [.m1 .uint32 "private_data_indicator"]

def smoothingBufferMember : List Member :=
  [.m .uint32 "reserved" 2, .m .uint32 "sb_leak_rate" 22, .m .uint32 "reserved1" 2,
   .m .uint32 "sb_size" 6, .m1 .uint16 "sb_size_l"]

def stdMember : List Member :=
  [.m .uint8 "reserved" 7, .m .uint8 "leak_valid_flag" 1]

def ibpMember : List Member :=
  [.m .uint16 "closed_gop_flag" 1, .m .uint16 "identical_gop_flag" 1,
   .m .uint16 "max_gop_length" 14]

def carouselIdentifierMember : List Member :=
  [.m1 .uint32 "carousel_id", .mplast .uint8 "private_data_byte"]

def associationTagMember : List Member :=
  [.m1 .uint16 "association_tag", .m1 .uint16 "use", .m1 .uint8 "selector_byte_length",
   .mlv .uint8 "selector_byte_length" "selector_byte", .mplast .uint8 "private_data_byte"]

def deferredAssociationTagsMember : List Member :=
  [.m1 .uint8 "association_tags_loop_length",
   .mlv .uint16 "association_tags_loop_length" "association_tag", .m1 .uint16 "tansport_stream_id",
   .m1 .uint16 "program_number", .mplast .uint8 "private_data_byte"]

def nptRefrenceMember : List Member :=
  [.m .uint8 "postDiscontinuityIndicator" 1, .m .uint8 "contentId" 7, .m .uint8 "reserved" 7,
   .m .uint8 "STC_Reference" 1, .m1 .uint32 "STC_Reference_2", .m .uint64 "reserved1" 31,
   .m .uint64 "NPT_Reference" 33, .m1 .uint16 "scaleNumerator", .m1 .uint16 "scaleDenominator"]

def nptEndpointMember : List Member :=
  [.m .uint16 "reserved" 15, .m .uint16 "startNPT" 1, .m1 .uint32 "startNPT_2",
   .m .uint64 "reserved1" 31, .m .uint64 "stopNPT" 33]

def streamModeMember : List Member :=
  [.m1 .uint8 "streamMode", .m1 .uint8 "reserved"]

def streamEventMember : List Member :=
  [.m1 .uint16 "eventId", .m .uint64 "reserved" 31, .m .uint64 "eventNPT" 33,
   .mplast .uint8 "privateDataByte"]

def mpeg4VideoMember : List Member :=
  [.m1 .uint8 "MPEG4_visual_profile_and_level"]

def mpeg4AudioMember : List Member :=
  [.m1 .uint8 "MPEG4_audio_profile_and_level"]

def iodMember : List Member :=
  [.m1 .uint8 "Scope_of_IOD_label", .m1 .uint8 "IOD_label"]

def slMember : List Member :=
  [.m1 .uint16 "ES_ID"]

def fmcMember : List Member :=
  [.mplast .fmcNode "FMCs"]

def externalEsIdMember : List Member :=
  [.m1 .uint16 "external_ES_ID"]

def muxcodeMember : List Member :=
  [.mplast .muxCodeTableEntry "entries"]

def fmxBufferSizeMember : List Member :=
  [.m1 .uint32 "FB_DefaultBufferSize", .mplast .uint32 "FlexMuxBufferDescriptor"]

def multiplexBufferMember : List Member :=
  [.m .uint32 "MB_buffer_size" 24, .m .uint32 "TB_leak_rate" 24]

-- without the entries of the other headers
def foreachEnumMpegDescriptor : List (UInt8 × List Member) :=
  [(0x02, videoStreamMember), (0x03, audioStreamMember), (0x04, hierarchyMember),
   (0x05, registrationMember), (0x06, dataStreamAlignmentMember),
   (0x07, targetBackgroundGridMember), (0x08, videoWindowMember), (0x09, caMember),
   (0x0A, iso639LanguageMember), (0x0B, systemClockMember),
   (0x0C, multiplexBufferUtilizationMember), (0x0D, copyrightMember), (0x0E, maximumBitrateMember),
   (0x0F, privateDataIndicatorMember), (0x10, smoothingBufferMember), (0x11, stdMember),
   (0x12, ibpMember), (0x13, carouselIdentifierMember), (0x14, associationTagMember),
   (0x15, deferredAssociationTagsMember), (0x17, nptRefrenceMember), (0x18, nptEndpointMember),
   (0x19, streamModeMember), (0x1A, streamEventMember), (0x1B, mpeg4VideoMember),
   (0x1C, mpeg4AudioMember), (0x1D, iodMember), (0x1E, slMember), (0x1F, fmcMember),
   (0x20, externalEsIdMember), (0x21, muxcodeMember), (0x22, fmxBufferSizeMember),
   (0x23, multiplexBufferMember)]

end TsAnalyze.Descriptors
