import TsAnalyze.Shared.Memory
import TsAnalyze.Demux.SectionPreproc
import TsAnalyze.Demux.PsiPayload
import TsAnalyze.Demux.Reassembly
import TsAnalyze.Demux.Packing
import TsAnalyze.Demux.Packet
import TsAnalyze.Shared.Chunks
import TsAnalyze.Input.PacketLoop
import TsAnalyze.Demux.Container
import TsAnalyze.Input.Probe
import TsAnalyze.Input.Process
import TsAnalyze.Input.Carry
import TsAnalyze.Input.Udp
import TsAnalyze.Input.File
import TsAnalyze.Shared.Heap
import TsAnalyze.Tables.Bitmap
import TsAnalyze.Tables.Header
import TsAnalyze.Tables.LongSection
import TsAnalyze.Tables.Descriptors
import TsAnalyze.Tables.DvbSi
import TsAnalyze.Tables.Handlers
import TsAnalyze.Tables.Versions
import TsAnalyze.Tables.SubTables
import TsAnalyze.Tables.Assembly
import TsAnalyze.Tables.Active
import TsAnalyze.Tables.VersionRun
import TsAnalyze.Tables.Rejection
import TsAnalyze.Tables.Repetition
import TsAnalyze.Tables.Description
import TsAnalyze.Demux.PesPacket
import TsAnalyze.Filters.Dispatch
import TsAnalyze.Filters.History
import TsAnalyze.Tables.PmtRegistry
import TsAnalyze.Shared.Json
import TsAnalyze.Report.Emitter
import TsAnalyze.Report.Tree
import TsAnalyze.Report.JsonText
import TsAnalyze.Report.Html
import TsAnalyze.Shared.Yaml
import TsAnalyze.Report.YamlText
import TsAnalyze.Report.YamlKeys
import TsAnalyze.Report.YamlTree
import TsAnalyze.Report.Agreement
import TsAnalyze.Input.Detection
import TsAnalyze.Shared.Encoding
import TsAnalyze.Shared.Yields
import TsAnalyze.Tables.Encoded
import TsAnalyze.Tables.Envelope
import TsAnalyze.Tables.PmtEncoding
import TsAnalyze.Tables.DvbSiEncoding
import TsAnalyze.Tables.PatEncoding
import TsAnalyze.Tables.EitEncoding
import TsAnalyze.Tables.NodeWalk
import TsAnalyze.Tables.Bounds
import TsAnalyze.Demux.PacketBounds
import TsAnalyze.Tables.Analysis
import TsAnalyze.Tables.Dispatching
import TsAnalyze.Tables.Selection
import TsAnalyze.Descriptors.Callbacks
import TsAnalyze.Shared.Bits
import TsAnalyze.Descriptors.Atsc
import TsAnalyze.Descriptors.Dvb
import TsAnalyze.Descriptors.Isdb
import TsAnalyze.Descriptors.Table
import TsAnalyze.Descriptors.Framing
import TsAnalyze.Descriptors.BitFields
import TsAnalyze.Descriptors.Alignment
import TsAnalyze.Descriptors.Extents
import TsAnalyze.Descriptors.Inside
import TsAnalyze.Descriptors.HostOrder
import TsAnalyze.Shared.Counted
import TsAnalyze.Psip.MultipleString
import TsAnalyze.Psip.Decoders
import TsAnalyze.Psip.MgtEncoding
import TsAnalyze.Psip.VctEncoding
import TsAnalyze.Psip.EventEncoding
import TsAnalyze.Psip.RrtEncoding
import TsAnalyze.Psip.SttLoop
import TsAnalyze.Psip.DcctEncoding
import TsAnalyze.Psip.DccsctEncoding
import TsAnalyze.Scte.Splice
import TsAnalyze.Scte.SpliceEncoding
import TsAnalyze.Pes.Packet
import TsAnalyze.Scte.SpliceLoop
import TsAnalyze.Pes.Payload
import TsAnalyze.Pes.Bounds
import TsAnalyze.Pes.Location
import TsAnalyze.Shared.Rle8
import TsAnalyze.Subtitle.PixelCodes
import TsAnalyze.Subtitle.PixelStrings
import TsAnalyze.Subtitle.FourBits
import TsAnalyze.Subtitle.EightBits
import TsAnalyze.Subtitle.Transcoding
import TsAnalyze.Subtitle.OutputSize
import TsAnalyze.Subtitle.TwoBits
import TsAnalyze.Shared.Returning
import TsAnalyze.Subtitle.Segments
import TsAnalyze.Subtitle.SegmentSyntax
import TsAnalyze.Subtitle.Disparity
import TsAnalyze.Subtitle.SegmentBodies
import TsAnalyze.Subtitle.SegmentRuns
import TsAnalyze.Shared.Crc
import TsAnalyze.Tables.Crc32
import TsAnalyze.Demux.AdaptationField
import TsAnalyze.Demux.Bitrate
import TsAnalyze.Options.SelectedPids
import TsAnalyze.Report.TextLine
import TsAnalyze.Teletext.Hamming
import TsAnalyze.Teletext.Pages
import TsAnalyze.Teletext.Packets
import TsAnalyze.Teletext.Payloads
import TsAnalyze.Input.Scores
import TsAnalyze.Pes.Registry
import TsAnalyze.Tables.Concatenation
import TsAnalyze.Report.HexDump
import TsAnalyze.Lists.Accounting
import TsAnalyze.Lists.Parsers
import TsAnalyze.Lists.Refinement
import TsAnalyze.Lists.Sections
import TsAnalyze.Demux.Emission
import TsAnalyze.Descriptors.Settled
import TsAnalyze.Tables.Announced
import TsAnalyze.Tables.Broadcast
import TsAnalyze.Report.Calls
