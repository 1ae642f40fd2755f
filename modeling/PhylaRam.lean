import PhylaRam.Acquire.Basic
import PhylaRam.Acquire.Engine
import PhylaRam.Acquire.Guards
import PhylaRam.Acquire.Image
import PhylaRam.Acquire.Maintain
import PhylaRam.Acquire.Partition
import PhylaRam.Acquire.Progress
import PhylaRam.Acquire.Recovery
import PhylaRam.Acquire.Refusal
import PhylaRam.Acquire.Replies
import PhylaRam.Acquire.Step
import PhylaRam.Acquire.Stream
import PhylaRam.Acquire.Success
import PhylaRam.Acquire.Trace
import PhylaRam.Cli.Capture
import PhylaRam.Cli.CommandLine
import PhylaRam.Cli.DryRun
import PhylaRam.Cli.ImageFormat
import PhylaRam.Cli.Modes
import PhylaRam.Converter.DumpAgreement
import PhylaRam.Converter.E01
import PhylaRam.Converter.E01Volume
import PhylaRam.Converter.Python
import PhylaRam.Converter.ShortRead
import PhylaRam.Converter.Zdmp
import PhylaRam.Device.Addresses
import PhylaRam.Device.Copies
import PhylaRam.Device.Inspection
import PhylaRam.Device.Query
import PhylaRam.Device.Rules
import PhylaRam.Device.Session
import PhylaRam.Driver.Basic
import PhylaRam.Driver.Confinement
import PhylaRam.Driver.Ioctl
import PhylaRam.Driver.Lifecycle
import PhylaRam.Driver.Rules
import PhylaRam.Driver.Session
import PhylaRam.Driver.Tables
import PhylaRam.Evidence.Accounting
import PhylaRam.Evidence.AllOrNothing
import PhylaRam.Evidence.Cause
import PhylaRam.Evidence.Conduct
import PhylaRam.Evidence.ContainerBundle
import PhylaRam.Evidence.CrashPoints
import PhylaRam.Evidence.Delivery
import PhylaRam.Evidence.DumpBundle
import PhylaRam.Evidence.Files
import PhylaRam.Evidence.ForeignFiles
import PhylaRam.Evidence.Map
import PhylaRam.Evidence.MapText
import PhylaRam.Evidence.Provenance
import PhylaRam.Evidence.Publication
import PhylaRam.Evidence.RawBundle
import PhylaRam.Evidence.RoundTrip
import PhylaRam.Evidence.Sha256
import PhylaRam.Evidence.Transaction
import PhylaRam.Evidence.Verdict
import PhylaRam.Gui.Inspection
import PhylaRam.Gui.Leaving
import PhylaRam.Gui.MainWindow
import PhylaRam.Gui.Protocol
import PhylaRam.Gui.Runs
import PhylaRam.Gui.Worker
import PhylaRam.Library.Checked
import PhylaRam.Library.Chunks
import PhylaRam.Library.Fields
import PhylaRam.Library.Gaps
import PhylaRam.Library.History
import PhylaRam.Library.Image
import PhylaRam.Library.Interval
import PhylaRam.Library.Json
import PhylaRam.Library.JsonWriter
import PhylaRam.Library.Numeral
import PhylaRam.Library.Packed
import PhylaRam.Library.Placement
import PhylaRam.Library.Pool
import PhylaRam.Library.Program
import PhylaRam.Library.SideBySide
import PhylaRam.Library.Transition
import PhylaRam.Library.Word
import PhylaRam.Service.Cleanup
import PhylaRam.Service.Driver
import PhylaRam.Service.Extraction
import PhylaRam.Service.Resource
import PhylaRam.Service.Start
import PhylaRam.Service.World
import PhylaRam.Shared.Interfaces
import PhylaRam.Shared.Protocol
import PhylaRam.Tests.Mock
import PhylaRam.Tests.MockAcquire
import PhylaRam.Tests.MockAgreement
import PhylaRam.Tests.RangeAlgebra
import PhylaRam.Verify.Bundle
import PhylaRam.Verify.Hash
import PhylaRam.Verify.HexFields
import PhylaRam.Verify.Json
import PhylaRam.Verify.Rules
import PhylaRam.Verify.Schema
import PhylaRam.Verify.Spec
import PhylaRam.Verify.Text
import PhylaRam.Verify.Verifier
import PhylaRam.Win32.FileSystem
import PhylaRam.Win32.Path
import PhylaRam.Win32.Rules
import PhylaRam.Writer.Basic
import PhylaRam.Writer.E01
import PhylaRam.Writer.E01Finalization
import PhylaRam.Writer.E01Image
import PhylaRam.Writer.E01Layout
import PhylaRam.Writer.E01Media
import PhylaRam.Writer.E01Metadata
import PhylaRam.Writer.E01Sections
import PhylaRam.Writer.Granted
import PhylaRam.Writer.Opening
import PhylaRam.Writer.Raw
import PhylaRam.Writer.RawImage
import PhylaRam.Writer.Staging
import PhylaRam.Writer.Tending
import PhylaRam.Writer.Zdmp
import PhylaRam.Writer.ZdmpFile
import PhylaRam.Writer.ZdmpImage
import PhylaRam.Writer.ZdmpLayout
import PhylaRam.Writer.ZdmpReader
