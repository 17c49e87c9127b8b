import MmsServer.Amf0.Arrays
import MmsServer.Amf0.Bounds
import MmsServer.Amf0.Data
import MmsServer.Amf0.RoundTrip
import MmsServer.Base.BitFields
import MmsServer.Base.BitStream
import MmsServer.Base.ConsistentHash
import MmsServer.Base.Crc32
import MmsServer.Base.ExpGolomb
import MmsServer.Base.KnownTime
import MmsServer.Base.SequenceBuf
import MmsServer.Base.SequenceDump
import MmsServer.Codec.AudioConfig
import MmsServer.Codec.AvcCodec
import MmsServer.Codec.AvcConfig
import MmsServer.Codec.EmulationPrevention
import MmsServer.Codec.HevcConfig
import MmsServer.Codec.LatestSets
import MmsServer.Codec.NaluType
import MmsServer.Codec.PictureSize
import MmsServer.Codec.SpsParser
import MmsServer.Codec.SpsRecovery
import MmsServer.Codec.SpsSyntax
import MmsServer.Config.OrderChecks
import MmsServer.Config.ParamTable
import MmsServer.Config.PlaceHolderGenerator
import MmsServer.Config.Template
import MmsServer.Core.Exclusivity
import MmsServer.Core.FlvSource
import MmsServer.Core.HlsSource
import MmsServer.Core.LiveReader
import MmsServer.Core.NewViewer
import MmsServer.Core.PublisherRelease
import MmsServer.Core.PublisherSteps
import MmsServer.Core.RtmpSource
import MmsServer.Core.SessionInvariant
import MmsServer.Core.SinkAccounting
import MmsServer.Core.SourceSession
import MmsServer.Core.StartSearch
import MmsServer.Http.ChunkedBody
import MmsServer.Http.FlvClient
import MmsServer.Http.RequestDelivery
import MmsServer.Http.RequestSession
import MmsServer.Http.RequestText
import MmsServer.Http.RoutePattern
import MmsServer.Http.RouteTable
import MmsServer.Http.TrieTree
import MmsServer.Http.WebSocketFrame
import MmsServer.Http.WebSocketSession
import MmsServer.Lib.Attach
import MmsServer.Lib.Batching
import MmsServer.Lib.BitReading
import MmsServer.Lib.ByteLayout
import MmsServer.Lib.ByteReader
import MmsServer.Lib.Checked
import MmsServer.Lib.CheckedLoop
import MmsServer.Lib.CheckedReading
import MmsServer.Lib.CheckedWriting
import MmsServer.Lib.ChunkedMemory
import MmsServer.Lib.Crc
import MmsServer.Lib.CyclicCount
import MmsServer.Lib.ExpGolomb
import MmsServer.Lib.Find
import MmsServer.Lib.Fuel
import MmsServer.Lib.GuardedRun
import MmsServer.Lib.Incremental
import MmsServer.Lib.Interleaving
import MmsServer.Lib.KeyRing
import MmsServer.Lib.KeyedList
import MmsServer.Lib.MirrorMap
import MmsServer.Lib.NumberedLog
import MmsServer.Lib.PackedByte
import MmsServer.Lib.Pieces
import MmsServer.Lib.RecentWindow
import MmsServer.Lib.SortedMap
import MmsServer.Lib.StatefulSearch
import MmsServer.Lib.StringMemory
import MmsServer.Lib.Text
import MmsServer.Lib.WeakSlot
import MmsServer.M4s.CompositionTime
import MmsServer.M4s.Duration
import MmsServer.M4s.InitSegment
import MmsServer.M4s.MediaSegment
import MmsServer.M4s.RtmpToM4s
import MmsServer.M4s.SegmentBuffer
import MmsServer.M4s.SegmentIndex
import MmsServer.M4s.Timeline
import MmsServer.Mp4.Base
import MmsServer.Mp4.Esds
import MmsServer.Mp4.FragmentBoxes
import MmsServer.Mp4.MovieBoxes
import MmsServer.Mp4.RoundTrip
import MmsServer.Mp4.SampleBoxes
import MmsServer.Recorder.FlvFile
import MmsServer.Rtmp.Abort
import MmsServer.Rtmp.Address
import MmsServer.Rtmp.ChunkFormat
import MmsServer.Rtmp.ChunkReceiver
import MmsServer.Rtmp.ChunkRoundTrip
import MmsServer.Rtmp.ChunkSender
import MmsServer.Rtmp.ChunkSizeChange
import MmsServer.Rtmp.Command
import MmsServer.Rtmp.CommandExchange
import MmsServer.Rtmp.CommandSession
import MmsServer.Rtmp.ControlMessage
import MmsServer.Rtmp.Define
import MmsServer.Rtmp.ExtendedTimestamp
import MmsServer.Rtmp.FailedSend
import MmsServer.Rtmp.FlvBridge
import MmsServer.Rtmp.FlvTag
import MmsServer.Rtmp.FlvTagDecoders
import MmsServer.Rtmp.NaluSplit
import MmsServer.Rtmp.ParameterSets
import MmsServer.Rtmp.PullSession
import MmsServer.Rtmp.PushSession
import MmsServer.Rtmp.ReceiveLoop
import MmsServer.Rtmp.ReceiverSafety
import MmsServer.Rtmp.StreamIndependence
import MmsServer.Rtp.AacBridge
import MmsServer.Rtp.AacRoundTrip
import MmsServer.Rtp.AacTimestamp
import MmsServer.Rtp.Assembler
import MmsServer.Rtp.Charge
import MmsServer.Rtp.Depacketizer
import MmsServer.Rtp.Format
import MmsServer.Rtp.Header
import MmsServer.Rtp.HeaderBytes
import MmsServer.Rtp.PackedFrame
import MmsServer.Rtp.Packer
import MmsServer.Rtp.PacketSequence
import MmsServer.Rtp.Reassembly
import MmsServer.Rtp.ReassemblySafety
import MmsServer.Rtp.RoundTrip
import MmsServer.Rtp.RtcpReport
import MmsServer.Rtp.VideoRoundTrip
import MmsServer.Rtsp.Bridge
import MmsServer.Rtsp.Interleaved
import MmsServer.Rtsp.MessageText
import MmsServer.Rtsp.RecvLoop
import MmsServer.Rtsp.Relay
import MmsServer.SdpFormat.Attributes
import MmsServer.SdpFormat.FormatLines
import MmsServer.SdpFormat.MediaSection
import MmsServer.SdpFormat.RoundTrip
import MmsServer.SdpFormat.Session
import MmsServer.Stun.Attr
import MmsServer.Stun.AttrSpan
import MmsServer.Stun.DecodeSafety
import MmsServer.Stun.FingerPrint
import MmsServer.Stun.Integrity
import MmsServer.Stun.Msg
import MmsServer.Stun.RoundTrip
import MmsServer.Ts.AacStream
import MmsServer.Ts.AudioPackets
import MmsServer.Ts.Continuity
import MmsServer.Ts.Demux
import MmsServer.Ts.HlsViewer
import MmsServer.Ts.LongTsViewer
import MmsServer.Ts.Packetizer
import MmsServer.Ts.PesHeader
import MmsServer.Ts.PesPacket
import MmsServer.Ts.PesTimestamps
import MmsServer.Ts.RtmpBridge
import MmsServer.Ts.Segment
import MmsServer.Ts.SegmentMemory
import MmsServer.Ts.SegmentReaders
import MmsServer.Ts.Tables
import MmsServer.Webrtc.Binding
import MmsServer.Webrtc.Server
import MmsServer.Webrtc.SessionMaps
