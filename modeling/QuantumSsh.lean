import QuantumSsh.Lib.Lists
import QuantumSsh.Admission.Accounting
import QuantumSsh.Admission.RateExcess
import QuantumSsh.Server.Basic
import QuantumSsh.Server.Audit
import QuantumSsh.Lib.Program
import QuantumSsh.Wire
import QuantumSsh.Kex
import QuantumSsh.Transport.Session
import QuantumSsh.Channel.Driver
import QuantumSsh.Channel.Inbound
import QuantumSsh.Channel.Drive
import QuantumSsh.Channel.Reactions
import QuantumSsh.Channel.Turns
import QuantumSsh.Channel.Window
import QuantumSsh.Channel.Plain
import QuantumSsh.Lib.Pipe
import QuantumSsh.Channel.Stdin
import QuantumSsh.Channel.Close
import QuantumSsh.Channel.Duplex
import QuantumSsh.Channel.Replies
import QuantumSsh.Channel.Output
import QuantumSsh.Channel.Deluge
import QuantumSsh.Channel.Nonce
import QuantumSsh.Channel.Backlog
import QuantumSsh.Channel.Waking
import QuantumSsh.Channel.Outflow
import QuantumSsh.Packet
import QuantumSsh.Transport.Cipher
import QuantumSsh.Transport.Reading
import QuantumSsh.Auth
import QuantumSsh.Transport.Handshake
import QuantumSsh.Transport.Order
import QuantumSsh.Channel.Strict
import QuantumSsh.Lib.Coupling
import QuantumSsh.Transport.Lockstep
import QuantumSsh.Channel.Deferral
import QuantumSsh.Channel.Shadow
import QuantumSsh.Channel.Noops
import QuantumSsh.Fields
import QuantumSsh.Codec
import QuantumSsh.Userauth
import QuantumSsh.Negotiation
import QuantumSsh.Keys
import QuantumSsh.Cert
import QuantumSsh.Lib.Text
import QuantumSsh.Base64
import QuantumSsh.KeyFile
import QuantumSsh.HostKey
import QuantumSsh.Lib.Checks
import QuantumSsh.Transport.Login
import QuantumSsh.Exec.Reaper
import QuantumSsh.Exec.Reaping
import QuantumSsh.Sftp.Basic
import QuantumSsh.Sftp.Requests
import QuantumSsh.Sftp.Session
import QuantumSsh.Sftp.Handles
import QuantumSsh.Sftp.Files
import QuantumSsh.Sftp.Rename
import QuantumSsh.Sftp.Realpath
import QuantumSsh.Sftp.Listing
import QuantumSsh.Channel.Calm
import QuantumSsh.Channel.Record
import QuantumSsh.Channel.Intake
import QuantumSsh.Keygen.Basic
import QuantumSsh.Keygen.Trace
import QuantumSsh.Keygen.StrictModes
import QuantumSsh.Lib.Json
import QuantumSsh.Server.LogJson
import QuantumSsh.Exec.Pty
import QuantumSsh.Exec.Hangup
import QuantumSsh.Lib.Calendar
import QuantumSsh.Lib.Instants
import QuantumSsh.Lib.Loops
import QuantumSsh.Server.Shutdown
import QuantumSsh.Sftp.Dates
import QuantumSsh.Sftp.Passes
import QuantumSsh.Lib.Feedback
import QuantumSsh.Transport.Schedule
import QuantumSsh.Channel.Agreement
import QuantumSsh.Channel.Delivery
import QuantumSsh.Transport.Welcome
import QuantumSsh.Startup.NewKey
import QuantumSsh.Server.Limits
import QuantumSsh.Lib.Patches
import QuantumSsh.Sftp.Store
import QuantumSsh.Sftp.Stored
