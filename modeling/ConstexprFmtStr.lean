import ConstexprFmtStr.Lib.Machine
import ConstexprFmtStr.Lib.Slice
import ConstexprFmtStr.Lib.Stores
import ConstexprFmtStr.Lib.Word
import ConstexprFmtStr.Lib.Framing
import ConstexprFmtStr.Lib.Numeral
import ConstexprFmtStr.Lib.Munch
import ConstexprFmtStr.Lib.Search
import ConstexprFmtStr.Runtime.StagingBuffer
import ConstexprFmtStr.Runtime.StagingFifo
import ConstexprFmtStr.Runtime.StagingProgress
import ConstexprFmtStr.Runtime.SinkLogger
import ConstexprFmtStr.Runtime.BufferPool
import ConstexprFmtStr.Runtime.SupplementaryBuffers
import ConstexprFmtStr.Runtime.SinkParse
import ConstexprFmtStr.Runtime.Pipeline
import ConstexprFmtStr.Runtime.EndToEnd
import ConstexprFmtStr.Runtime.Shutdown
import ConstexprFmtStr.Format.Scanners
import ConstexprFmtStr.Format.Outbuf
import ConstexprFmtStr.Format.Digits
import ConstexprFmtStr.Format.Args
import ConstexprFmtStr.Format.Converter
import ConstexprFmtStr.Format.Emitted
import ConstexprFmtStr.Format.Integers
import ConstexprFmtStr.Format.IntegerShape
import ConstexprFmtStr.Format.WideString
import ConstexprFmtStr.Format.Floats
import ConstexprFmtStr.Format.Print
import ConstexprFmtStr.Format.Taken
import ConstexprFmtStr.Format.Truncation
import ConstexprFmtStr.Format.Grammar
import ConstexprFmtStr.Log.Entry
import ConstexprFmtStr.Log.Layout
import ConstexprFmtStr.Log.Decode
import ConstexprFmtStr.Log.Deferred
import ConstexprFmtStr.Log.Bounded
import ConstexprFmtStr.Runtime.Rendering
import ConstexprFmtStr.Format.Encoders
import ConstexprFmtStr.Runtime.Cache
import ConstexprFmtStr.Runtime.SplitSeconds
import ConstexprFmtStr.Runtime.PollScan
import ConstexprFmtStr.Runtime.Tscns
import ConstexprFmtStr.Format.IntRange
import ConstexprFmtStr.Format.Exponent
import ConstexprFmtStr.Format.UpperCase
import ConstexprFmtStr.Runtime.SinkLines
import ConstexprFmtStr.Lib.Merged
import ConstexprFmtStr.Runtime.LoggedLines
import ConstexprFmtStr.Lib.Progress
import ConstexprFmtStr.Runtime.SinkCycle
import ConstexprFmtStr.Runtime.Drain
import ConstexprFmtStr.Runtime.Blocked
import ConstexprFmtStr.Lib.FanIn
import ConstexprFmtStr.Runtime.Refinement
import ConstexprFmtStr.Runtime.Registry
import ConstexprFmtStr.Format.Padding
import ConstexprFmtStr.Format.Compose
import ConstexprFmtStr.Runtime.Completion
import ConstexprFmtStr.Lib.Truncate
import ConstexprFmtStr.Runtime.ClockLine
import ConstexprFmtStr.Format.Compiles
import ConstexprFmtStr.Format.Rounding
