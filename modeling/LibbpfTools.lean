import LibbpfTools.App.Execs
import LibbpfTools.App.Lines
import LibbpfTools.Bpf.Helpers
import LibbpfTools.ExitStatus
import LibbpfTools.Lib.Bytes
import LibbpfTools.Lib.CString
import LibbpfTools.Lib.HashTab
import LibbpfTools.Lib.InetText
import LibbpfTools.Lib.Labels
import LibbpfTools.Lib.Lts
import LibbpfTools.Lib.Numeral
import LibbpfTools.Lib.Printf
import LibbpfTools.Lib.RingBuf
import LibbpfTools.Lib.Scan
import LibbpfTools.MainLoop
import LibbpfTools.Session
import LibbpfTools.So.Dlopen
import LibbpfTools.So.Main
import LibbpfTools.So.Report
import LibbpfTools.Strace.AddressText
import LibbpfTools.Strace.ArgLabels
import LibbpfTools.Strace.CallText
import LibbpfTools.Strace.Capacity
import LibbpfTools.Strace.Capture
import LibbpfTools.Strace.Complete
import LibbpfTools.Strace.Format
import LibbpfTools.Strace.Handlers
import LibbpfTools.Strace.Ledger
import LibbpfTools.Strace.Lifecycle
import LibbpfTools.Strace.Line
import LibbpfTools.Strace.Main
import LibbpfTools.Strace.OpenFlags
import LibbpfTools.Strace.Output
import LibbpfTools.Strace.Pairing
import LibbpfTools.Strace.Pipeline
import LibbpfTools.Strace.Provenance
import LibbpfTools.Strace.ReadBack
import LibbpfTools.Strace.Records
import LibbpfTools.Strace.RetText
import LibbpfTools.Strace.Sockaddr
import LibbpfTools.Strace.StringArgs
import LibbpfTools.Strace.SyscallTable
import LibbpfTools.Strace.Target
