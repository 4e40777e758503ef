import Shb.Http1.Refine
import Shb.Http1.Recognise
import Shb.Http2.Stuck
import Shb.Http2.PendingFlush
import Shb.Http2.Agreement
import Shb.Quic.SendInvariant
import Shb.Quic.Storage
import Shb.Quic.Received
import Shb.Quic.Conn.PeerCids
import Shb.Quic.Conn.Separation
import Shb.Quic.Conn.Congestion
import Shb.Quic.Conn.LossRecovery
import Shb.Quic.Conn.RecvCredit
import Shb.Quic.Conn.SendCredit
import Shb.Quic.Conn.Schedule
import Shb.Quic.Conn.Obligations
import Shb.Http3.Answers
import Shb.Http3.Sends
import Shb.Http3.Expiry
import Shb.Reconnects
import Shb.Report
import Shb.Timeouts
import Shb.Tls
import Shb.PrefixIntegers
