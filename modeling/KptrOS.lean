import KptrOS.Lib.CSem
import KptrOS.Lib.Runs
import KptrOS.Lib.Pool
import KptrOS.Lib.Numeral
import KptrOS.Lib.Codec
import KptrOS.Lib.BlockCopy
import KptrOS.Lib.Compare
import KptrOS.Lib.Proc
import KptrOS.Machine.Memory
import KptrOS.Machine.Struct
import KptrOS.Machine.Memmove
import KptrOS.Machine.Overlap
import KptrOS.Machine.Memcmp
import KptrOS.Serial.Serial
import KptrOS.Serial.Text
import KptrOS.Serial.Decimal
import KptrOS.Serial.Printf
import KptrOS.Serial.FormatReads
import KptrOS.Mem.Bitmap
import KptrOS.Mem.BitArray
import KptrOS.Mem.Paging
import KptrOS.Mem.PageWalk
import KptrOS.Mem.LeafTable
import KptrOS.Mem.Pmm
import KptrOS.Mem.BitmapInit
import KptrOS.Mem.UsablePages
import KptrOS.Mem.Refinement
import KptrOS.Mem.Isolation
import KptrOS.Mem.Reserved
import KptrOS.Mem.InitBounds
import KptrOS.Acpi.KernelApi
import KptrOS.Acpi.Mapping
import KptrOS.Acpi.MapFrame
import KptrOS.Acpi.Balance
import KptrOS.Acpi.Coverage
import KptrOS.Acpi.Coherence
import KptrOS.Acpi.EarlyTable
import KptrOS.Cpu.Idt
import KptrOS.Cpu.Stub
import KptrOS.Cpu.Frame
import KptrOS.Cpu.Return
import KptrOS.Cpu.Exception
import KptrOS.Cpu.Coredump
import KptrOS.Cpu.Report
import KptrOS.Acpi.InitFailure
import KptrOS.Acpi.AllocFailure
import KptrOS.Acpi.FreeOrder
import KptrOS.Timer.Hpet
import KptrOS.Timer.Init
import KptrOS.Timer.Tick
import KptrOS.Timer.Interval
import KptrOS.Timer.Calls
import KptrOS.Uacpi.Integer
import KptrOS.Uacpi.Vsnprintf
import KptrOS.Uacpi.FormatParse
import KptrOS.Uacpi.FormatText
import KptrOS.Uacpi.Rendering
import KptrOS.Uacpi.Printed
import KptrOS.Uacpi.Message
import KptrOS.Uacpi.TableArray
import KptrOS.Uacpi.Fadt
import KptrOS.Uacpi.Tables
import KptrOS.Uacpi.Contract
import KptrOS.Uacpi.Reports
import KptrOS.Uacpi.Install
import KptrOS.Uacpi.Nesting
import KptrOS.Uacpi.Setup
import KptrOS.Uacpi.References
