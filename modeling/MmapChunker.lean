import MmapChunker.Theory.Tiling
import MmapChunker.Theory.Loop
import MmapChunker.Theory.TargetWalk
import MmapChunker.Theory.Segments
import MmapChunker.Theory.Occurrence
import MmapChunker.Theory.Framing
import MmapChunker.Theory.ZeroByte
import MmapChunker.Theory.Machine
import MmapChunker.Theory.Exec
import MmapChunker.Theory.Coupling
import MmapChunker.Theory.Padding
import MmapChunker.Theory.Handles
import MmapChunker.Theory.Logging
import MmapChunker.Scanner.Search
import MmapChunker.Scanner.Partition
import MmapChunker.Scanner.Integrity
import MmapChunker.Source.ByteSource
import MmapChunker.Source.Planner
import MmapChunker.Cli.Logical
import MmapChunker.Cli.Mapped
import MmapChunker.Cli.Sourced
import MmapChunker.Theory.Run
import MmapChunker.Theory.Stride
import MmapChunker.Scanner.Chunks
import MmapChunker.Mmap.Windowed
import MmapChunker.Mmap.Bounded
import MmapChunker.Source.Backends
import MmapChunker.Mmap.Open
import MmapChunker.Cli.Refusal
import MmapChunker.Engine.Pin
import MmapChunker.Engine.Plan
import MmapChunker.Engine.Ffi
import MmapChunker.Scanner.Targets
import MmapChunker.Scanner.Balance
import MmapChunker.Theory.Iterator
import MmapChunker.Scanner.Cursor
import MmapChunker.Cli.Shards
import MmapChunker.Cli.Padded
import MmapChunker.Source.Torn
import MmapChunker.Source.Watched
import MmapChunker.Cli.Held
import MmapChunker.Cli.Lifecycle
import MmapChunker.Cli.Cache
import MmapChunker.Engine.Chunker
import MmapChunker.Engine.Swap
import MmapChunker.Ranges.Planner
import MmapChunker.Ranges.Workers
import MmapChunker.Ranges.Native
import MmapChunker.Ranges.Owned
import MmapChunker.Python.Native
import MmapChunker.Theory.Lines
import MmapChunker.Python.Planning
import MmapChunker.Python.Datatrove
import MmapChunker.Theory.Text
import MmapChunker.Theory.Options
import MmapChunker.Command.Arguments
import MmapChunker.Command.Run
import MmapChunker.Theory.Dict
import MmapChunker.Theory.Measures
import MmapChunker.Workers.Consumer
import MmapChunker.Workers.Execution
import MmapChunker.Workers.Table
import MmapChunker.Workers.EndToEnd
import MmapChunker.Workers.Validator
import MmapChunker.Workers.Case
import MmapChunker.Theory.Resources
import MmapChunker.Mmap.Descriptors
import MmapChunker.Engine.Library
import MmapChunker.Python.Bundled
import MmapChunker.Theory.Yielded
import MmapChunker.Theory.Once
import MmapChunker.Python.RangeReader
import MmapChunker.Python.Loader
