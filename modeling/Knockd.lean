import Knockd.Model.Config
import Knockd.Model.Logger
import Knockd.Math.SlotTable
import Knockd.Model.Knocker
import Knockd.Knocker.Soundness
import Knockd.Knocker.Progress
import Knockd.Knocker.Restart
import Knockd.Model.Firewall
import Knockd.Firewall.CommandLines
import Knockd.Firewall.Moves
import Knockd.Firewall.Sync
import Knockd.Firewall.Expiry
import Knockd.Firewall.Operator
import Knockd.Math.RingBuffer
import Knockd.Model.PacketQueue
import Knockd.Queue.Fifo
import Knockd.Model.Sniffer
import Knockd.Model.Daemon
import Knockd.Daemon.Flow
import Knockd.Knocker.History
import Knockd.Knocker.Completions
import Knockd.Math.Occurrence
import Knockd.Daemon.Access
import Knockd.Daemon.Flood
import Knockd.Daemon.Stopping
import Knockd.Knocker.Steps
import Knockd.Daemon.Window
import Knockd.Firewall.Startup
import Knockd.Queue.Runs
import Knockd.Semantics.CString
import Knockd.Model.ConfigFile
import Knockd.Config.Values
import Knockd.Config.Load
import Knockd.Config.Lines
import Knockd.Config.RoundTrip
import Knockd.Knocker.Expired
import Knockd.Knocker.Retransmit
import Knockd.Math.Bytes
import Knockd.Sniffer.Packet
import Knockd.Sniffer.Parse
import Knockd.Model.Processor
import Knockd.Daemon.Secrecy
import Knockd.Daemon.Calls
import Knockd.Knocker.Reads
import Knockd.Semantics.Monitor
import Knockd.Semantics.Wakeup
import Knockd.Model.QueueThreads
import Knockd.Queue.Threads
import Knockd.Daemon.Locked
import Knockd.Daemon.Lifetime
import Knockd.Model.Main
import Knockd.Main.Processes
import Knockd.Daemon.Admission
import Knockd.Knocker.Isolation
import Knockd.Daemon.Levels
import Knockd.Main.Arguments
import Knockd.Main.Exits
import Knockd.Daemon.Accounts
import Knockd.Daemon.Response
import Knockd.Semantics.Shell
import Knockd.Semantics.Script
import Knockd.Model.Client
import Knockd.Client.Sequence
