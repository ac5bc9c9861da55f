import DnsLattice.StoreBudget
import DnsLattice.AnswerLifetimes
import DnsLattice.FlightRegistry
import DnsLattice.DomainMatcher
import DnsLattice.PoolEquivalence
import DnsLattice.SnapshotRace
import DnsLattice.ConnPoolJanitor
import DnsLattice.ConnPoolConnects
import DnsLattice.StreamSlack
import DnsLattice.StreamRetries
import DnsLattice.EncodingPrefixes
import DnsLattice.TransactionFields
import DnsLattice.CacheEventOrder
import DnsLattice.StreamFrames
import DnsLattice.UdpEndToEnd
import DnsLattice.DohPool
