import UefiStub.Lib.Prog
import UefiStub.Lib.History
import UefiStub.Lib.Ledger
import UefiStub.Lib.Blocks
import UefiStub.Lib.Buf
import UefiStub.Lib.Numeral
import UefiStub.Lib.Lines
import UefiStub.Lib.Unicode
import UefiStub.Lib.RegFile
import UefiStub.Lib.Bits
import UefiStub.Lib.Ones
import UefiStub.Lib.Select
import UefiStub.Lib.Records
import UefiStub.Lib.Raster
import UefiStub.Lib.Embed
import UefiStub.Lib.Words
import UefiStub.Lib.Reader
import UefiStub.Efi
import UefiStub.Align
import UefiStub.Str.Basic
import UefiStub.Str.Convert
import UefiStub.Str.Agree
import UefiStub.Str.Edit
import UefiStub.Str.Copy
import UefiStub.Str.Reverse
import UefiStub.Str.Compare
import UefiStub.Console.Basic
import UefiStub.Console.Calls
import UefiStub.Console.Decode
import UefiStub.Console.Puts
import UefiStub.Console.Stream
import UefiStub.Console.Sound
import UefiStub.Console.Number
import UefiStub.Console.Text
import UefiStub.Console.Reset
import UefiStub.Info
import UefiStub.Memory.Basic
import UefiStub.Memory.Grow
import UefiStub.Memory.Pool
import UefiStub.Memory.Load
import UefiStub.Memory.Report
import UefiStub.Console.Wait
import UefiStub.Memory.Pages
import UefiStub.Memory.Blocks
import UefiStub.Pci.Basic
import UefiStub.Pci.Size
import UefiStub.Pci.Device
import UefiStub.Pci.Restore
import UefiStub.Pci.Probe
import UefiStub.Pci.Writes
import UefiStub.Pci.Loop
import UefiStub.Pci.Failing
import UefiStub.Pci.Sizing
import UefiStub.Pci.Report
import UefiStub.Pci.IoBar
import UefiStub.Bitops
import UefiStub.Gop.Basic
import UefiStub.Gop.Firmware
import UefiStub.Gop.Setup
import UefiStub.Gop.Find
import UefiStub.Gop.Release
import UefiStub.Gop.Entry
import UefiStub.Gop.Listing
import UefiStub.Gop.Choice
import UefiStub.Gop.Mode
import UefiStub.Gop.Screen
import UefiStub.Gop.Masks
import UefiStub.Gop.Search
import UefiStub.Gop.Fill
import UefiStub.Gop.Exact
import UefiStub.Gop.Pixel
import UefiStub.Stub.Basic
import UefiStub.Pci.Bracket
import UefiStub.Gop.Calls
import UefiStub.Pci.Calls
import UefiStub.Stub.Calls
import UefiStub.Stub.Release
import UefiStub.Stub.Draw
import UefiStub.Stub.Pointers
import UefiStub.Stub.Exit
import UefiStub.Stub.Picture
import UefiStub.Pci.Listing
import UefiStub.Pci.Bus
import UefiStub.Stub.Report
import UefiStub.Gop.Compare
import UefiStub.Stub.Machine
import UefiStub.Str.Store
import UefiStub.Gop.Table
import UefiStub.Stub.Modes
import UefiStub.Stub.Boot
import UefiStub.Pci.Accesses
import UefiStub.Memory.Loans
