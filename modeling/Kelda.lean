import Kelda.Api.FuzzyLookup
import Kelda.Blueprint.Json
import Kelda.Blueprint.Values
import Kelda.Cloud.Acl
import Kelda.Cloud.Amazon
import Kelda.Cloud.Boot
import Kelda.Cloud.Firewall
import Kelda.Cloud.FirewallUpdate
import Kelda.Cloud.Fixpoint
import Kelda.Cloud.Fleet
import Kelda.Cloud.FleetRuns
import Kelda.Cloud.FloatingIPs
import Kelda.Cloud.Foreman
import Kelda.Cloud.Google
import Kelda.Cloud.Identity
import Kelda.Cloud.Join
import Kelda.Cloud.Namespaces
import Kelda.Cloud.Plan
import Kelda.Cloud.Quiesce
import Kelda.DB.Conn
import Kelda.DB.Database
import Kelda.DB.Isolation
import Kelda.DB.Loops
import Kelda.DB.Notify
import Kelda.DB.Rows
import Kelda.DB.Slices
import Kelda.DB.Trigger
import Kelda.Etcd.Codec
import Kelda.Etcd.Corrupt
import Kelda.Etcd.Elector
import Kelda.Etcd.Minion
import Kelda.Etcd.Replicate
import Kelda.Etcd.Store
import Kelda.Etcd.Sync
import Kelda.Join.HashJoin
import Kelda.Join.Join
import Kelda.Js.KeldaIDs
import Kelda.Js.UniqueNames
import Kelda.Kubernetes.Affinity
import Kelda.Kubernetes.ConfigMap
import Kelda.Kubernetes.Deployment
import Kelda.Kubernetes.Files
import Kelda.Kubernetes.Objects
import Kelda.Kubernetes.PodSpec
import Kelda.Kubernetes.PublicPorts
import Kelda.Kubernetes.Report
import Kelda.Kubernetes.Scheduling
import Kelda.Kubernetes.Status
import Kelda.Kubernetes.TermOrder
import Kelda.Lib.Allocation
import Kelda.Lib.FirstOf
import Kelda.Lib.Gather
import Kelda.Lib.GreedyMatching
import Kelda.Lib.Handover
import Kelda.Lib.HashMap
import Kelda.Lib.IPv4
import Kelda.Lib.Json
import Kelda.Lib.JsonCodec
import Kelda.Lib.Lease
import Kelda.Lib.Lists
import Kelda.Lib.NetIP
import Kelda.Lib.Packet
import Kelda.Lib.Prefix
import Kelda.Lib.Priority
import Kelda.Lib.RefStore
import Kelda.Lib.RefTxn
import Kelda.Lib.StringMap
import Kelda.Lib.Text
import Kelda.Lib.UuidTable
import Kelda.Lib.Words
import Kelda.Minion.Engine
import Kelda.Minion.Exact
import Kelda.Minion.IPDef
import Kelda.Minion.Peers
import Kelda.Minion.Policy
import Kelda.Minion.PortPlacements
import Kelda.Minion.Reconcile
import Kelda.Minion.Registry
import Kelda.Minion.Server
import Kelda.Minion.Wanted
import Kelda.Network.ACL
import Kelda.Network.ACLPolicy
import Kelda.Network.AddressSets
import Kelda.Network.Allocate
import Kelda.Network.AvoidRoutes
import Kelda.Network.Blacklist
import Kelda.Network.Converge
import Kelda.Network.DNS
import Kelda.Network.Enforced
import Kelda.Network.FlowTables
import Kelda.Network.Hostnames
import Kelda.Network.IP
import Kelda.Network.IPPool
import Kelda.Network.IPUpdate
import Kelda.Network.Interfaces
import Kelda.Network.Master
import Kelda.Network.MasterRuns
import Kelda.Network.MasterSound
import Kelda.Network.NAT
import Kelda.Network.Northbound
import Kelda.Network.Openflow
import Kelda.Network.Ovsdb
import Kelda.Network.PublicTraffic
import Kelda.Network.RuleForm
import Kelda.Network.RuleKey
import Kelda.Network.SyncChain
import Kelda.Network.UniqueIPs
import Kelda.OVN.Match
import Kelda.OpenFlow.Flow
import Kelda.OpenFlow.Reader
import Kelda.Util.Str
