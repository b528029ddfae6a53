import Ovpn2ss.Lib.LittleEndian
import Ovpn2ss.Lib.Drain
import Ovpn2ss.Aead.Basic
import Ovpn2ss.Aead.Chunk
import Ovpn2ss.Aead.Nonce
import Ovpn2ss.Aead.Integrity
import Ovpn2ss.Aead.Packet
import Ovpn2ss.Address
import Ovpn2ss.AddressText
import Ovpn2ss.AddressCodec
import Ovpn2ss.Lib.Machine
import Ovpn2ss.Lib.History
import Ovpn2ss.Lwip.Tcp
import Ovpn2ss.Tcp.Session
import Ovpn2ss.Tcp.Effects
import Ovpn2ss.Tcp.Chunks
import Ovpn2ss.Tcp.Downstream
import Ovpn2ss.Tcp.Client
import Ovpn2ss.Tcp.Reads
import Ovpn2ss.Tcp.Upstream
import Ovpn2ss.Tcp.ReadLoop
import Ovpn2ss.Tcp.Exactness
import Ovpn2ss.Tcp.ClientQueue
import Ovpn2ss.Tcp.Delivery
import Ovpn2ss.Tcp.Credit
import Ovpn2ss.Tcp.HalfClose
import Ovpn2ss.Tcp.Wedge
import Ovpn2ss.Tcp.Closed
import Ovpn2ss.Tcp.Cutting
import Ovpn2ss.Tcp.Buffering
import Ovpn2ss.Tcp.Owners
import Ovpn2ss.Tcp.Pipe
import Ovpn2ss.Tcp.Connection
import Ovpn2ss.Tcp.Target
import Ovpn2ss.Tcp.Requests
import Ovpn2ss.Tcp.Freed
import Ovpn2ss.Lib.Table
import Ovpn2ss.Lib.Regex
import Ovpn2ss.Lib.Slice
import Ovpn2ss.Dns.Wire
import Ovpn2ss.Dns.Message
import Ovpn2ss.Dns.Answers
import Ovpn2ss.Lib.Loop
import Ovpn2ss.Dns.Bounds
import Ovpn2ss.Dns.Resolver
import Ovpn2ss.Dns.Accounting
import Ovpn2ss.Dns.Once
import Ovpn2ss.Dns.Injection
import Ovpn2ss.Dns.Failure
import Ovpn2ss.Dns.Query
import Ovpn2ss.Dns.Origin
import Ovpn2ss.Lwip.Runtime
import Ovpn2ss.Lib.LastWrite
import Ovpn2ss.Tun.Builder
import Ovpn2ss.Tun.Reconnect
import Ovpn2ss.Tun.Uplink
import Ovpn2ss.Udp.Session
import Ovpn2ss.Udp.Mapping
import Ovpn2ss.Udp.Transparency
import Ovpn2ss.Udp.Idle
import Ovpn2ss.Udp.Stopped
import Ovpn2ss.Udp.Relayed
import Ovpn2ss.Udp.Pcbs
import Ovpn2ss.Inbound.Listener
import Ovpn2ss.Inbound.AcceptChain
import Ovpn2ss.Vpn.ConnectLoop
import Ovpn2ss.Vpn.CipherScan
import Ovpn2ss.Vpn.Client
import Ovpn2ss.Lib.Validate
import Ovpn2ss.Config.Json
import Ovpn2ss.Config.Load
import Ovpn2ss.Config.Refusal
import Ovpn2ss.Lwip.Netif
import Ovpn2ss.Lib.Locks
import Ovpn2ss.Locking
import Ovpn2ss.Manager
import Ovpn2ss.Instance.System
import Ovpn2ss.Instance.Resolution
