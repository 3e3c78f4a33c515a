import Volto.H3.FrameChunks
import Volto.H3.FrameBudget
import Volto.H3.FrameVerdicts
import Volto.H3.FrameReader
import Volto.H3.FrameRoundTrip
import Volto.H3.Control
import Volto.H3.Goaway
import Volto.H3.Datagrams
import Volto.H3.PrefixInt
import Volto.H3.Qpack
import Volto.H3.QpackFaults
import Volto.H3.PseudoOrder
import Volto.H3.IntReader
import Volto.H3.OwnStreams
import Volto.H3.SettingsPayload
import Volto.H3.Failure
import Volto.Gate.Screen
import Volto.Gate.ClientHello
import Volto.Gate.Frames
import Volto.Gate.IndexedFlight
import Volto.WireCapsule
import Volto.CapsuleMemory
import Volto.Datagram
import Volto.Tunnel.TcpBytes
import Volto.Tunnel.Unanswered
import Volto.Tunnel.UdpBytes
import Volto.Tunnel.AuthFailures
import Volto.Tunnel.Authority
import Volto.Tunnel.Drain
import Volto.Net.Resolver
import Volto.Net.Policy
import Volto.Quic.Reload
import Volto.Quic.Admission
import Volto.Quic.Eviction
import Volto.Congestion.ProbeRate
import Volto.Congestion.StartupRules
import Volto.Auth.Guesses
import Volto.Auth.Base64Exact
import Volto.Config.Redact
import Volto.Config.ExpectedSni
import Volto.Lib.Asking
import Volto.Lib.Numerals
import Volto.Lib.StableSort
import Volto.Net.Address
import Volto.Tunnel.Handler
import Volto.Tunnel.HandlerRule
import Volto.Tunnel.Served
import Volto.Tunnel.ServedDrain
import Volto.Tunnel.ServedGate
import Volto.Tunnel.ServedGuesses
import Volto.Tunnel.ServedDatagrams
import Volto.Tunnel.ServedTargets
