import ExmOnvif.Library.Ring
import ExmOnvif.Library.Runs
import ExmOnvif.Library.Bytes
import ExmOnvif.Library.Circle
import ExmOnvif.Library.Crc
import ExmOnvif.Library.Text
import ExmOnvif.Library.Assoc
import ExmOnvif.Library.Numerals
import ExmOnvif.Library.Settling
import ExmOnvif.Library.Lines
import ExmOnvif.Library.Scan
import ExmOnvif.Library.Sections
import ExmOnvif.Library.Descriptors
import ExmOnvif.Recorder.Layout
import ExmOnvif.Recorder.YearBlocks
import ExmOnvif.Recorder.DayBlocks
import ExmOnvif.Recorder.Disk
import ExmOnvif.Recorder.Writer
import ExmOnvif.Recorder.Startup
import ExmOnvif.Recorder.Cover
import ExmOnvif.Recorder.Playback
import ExmOnvif.Recorder.Machine
import ExmOnvif.Recorder.DayIndex
import ExmOnvif.Recorder.YearSearch
import ExmOnvif.Recorder.DaySearch
import ExmOnvif.Recorder.Backup
import ExmOnvif.Recorder.TimeIndex
import ExmOnvif.Recorder.Resume
import ExmOnvif.Recorder.Pipeline
import ExmOnvif.Recorder.MediaBlocks
import ExmOnvif.Recorder.SecBlocks
import ExmOnvif.Recorder.Checksum
import ExmOnvif.Recorder.MediaGroup
import ExmOnvif.Recorder.Splitting
import ExmOnvif.Recorder.Reserve
import ExmOnvif.Pool.SharedPool
import ExmOnvif.Pool.Invariant
import ExmOnvif.Pool.Readers
import ExmOnvif.Pool.Delivery
import ExmOnvif.Pool.Backlog
import ExmOnvif.Pool.Agreement
import ExmOnvif.Pool.Refusal
import ExmOnvif.Pool.Places
import ExmOnvif.Pool.Remaining
import ExmOnvif.Pool.Restart
import ExmOnvif.Pool.Slots
import ExmOnvif.Gtsocket.Transfer
import ExmOnvif.NvPair.Pairs
import ExmOnvif.NvPair.Store
import ExmOnvif.NvPair.Full
import ExmOnvif.NvPair.Segments
import ExmOnvif.HdModule.Channel
import ExmOnvif.HdModule.RecordThread
import ExmOnvif.HdModule.FileFlags
import ExmOnvif.HdModule.FileName
import ExmOnvif.HdModule.AlarmLog
import ExmOnvif.HdModule.FieldCase
import ExmOnvif.FileIndex.Index
import ExmOnvif.FileIndex.Convert
import ExmOnvif.FileIndex.LockByTime
import ExmOnvif.FileIndex.LockNames
import ExmOnvif.HdModule.Closing
import ExmOnvif.Rtimage.SecFifo
import ExmOnvif.Rtimage.Viewers
import ExmOnvif.Rtimage.ViewerSlots
import ExmOnvif.Rtimage.Sending
import ExmOnvif.Rtimage.BufferMap
import ExmOnvif.Rtimage.VencServer
import ExmOnvif.Rtimage.PlaybackSwitch
import ExmOnvif.DiskMan.Reclaim
import ExmOnvif.DiskMan.Rounds
import ExmOnvif.Ipmain.Alarm
import ExmOnvif.Ipmain.AlarmReport
import ExmOnvif.Ipmain.AlarmDb
import ExmOnvif.Ipmain.Resend
import ExmOnvif.Ipmain.GateConnect
import ExmOnvif.Csvparser.Record
import ExmOnvif.Csvparser.File
import ExmOnvif.Csvparser.ReadBack
import ExmOnvif.Csvparser.FieldArray
import ExmOnvif.GtComApi.Packet
import ExmOnvif.GtComApi.Wire
import ExmOnvif.GtComApi.Receive
import ExmOnvif.GtComApi.Delivery
import ExmOnvif.GtComApi.Envelope
import ExmOnvif.Confparser.Dict
import ExmOnvif.Confparser.Load
import ExmOnvif.Rtimage.SecResize
import ExmOnvif.Ipmain.FileReply
import ExmOnvif.GtComApi.EnvelopeBounds
import ExmOnvif.DiskMan.LockCommand
import ExmOnvif.Common.VState
import ExmOnvif.Library.Debounce
import ExmOnvif.FileLib.EmptyDirs
import ExmOnvif.FileLib.FtwSort
import ExmOnvif.FileLib.WalkOrder
import ExmOnvif.FileLib.RmFileSelect
import ExmOnvif.FileLib.KeptPath
import ExmOnvif.MediaServer.GtSource
import ExmOnvif.FileLib.LinkedOut
import ExmOnvif.Pool.EndBlock
import ExmOnvif.Ipmain.GpsRecv
import ExmOnvif.Ipmain.GpsMessages
import ExmOnvif.Library.Segments
import ExmOnvif.Sfcp.TransData
import ExmOnvif.Sfcp.CheckFile
import ExmOnvif.Library.Chunks
import ExmOnvif.Avilib.Output
import ExmOnvif.Avilib.Written
import ExmOnvif.Avilib.Input
import ExmOnvif.Avilib.Opened
import ExmOnvif.Avilib.Indexed
import ExmOnvif.Avilib.RoundTrip
import ExmOnvif.Avilib.Sequence
import ExmOnvif.Avilib.Repair
import ExmOnvif.Avilib.Crash
import ExmOnvif.Library.Compared
import ExmOnvif.Library.Spans
import ExmOnvif.Recordplay.PlaybackFile
import ExmOnvif.Recordplay.Play
import ExmOnvif.Recordplay.TimeSection
import ExmOnvif.Iniparser.Dictionary
import ExmOnvif.Iniparser.Load
import ExmOnvif.Iniparser.SaveLoad
import ExmOnvif.Iniparser.SetFile
import ExmOnvif.Modsocket.Bus
