import TagItGluster.Afr.Dirty
import TagItGluster.Afr.Selfheal
import TagItGluster.Barrier.Holding
import TagItGluster.Changelog.Binary
import TagItGluster.Changelog.History
import TagItGluster.Dht.Mkdir
import TagItGluster.Dht.NewDirectory
import TagItGluster.Ec.Agreement
import TagItGluster.Ec.Heal
import TagItGluster.Ec.Info
import TagItGluster.Ec.LockRuns
import TagItGluster.Ec.Refine
import TagItGluster.Ec.RoundTrip
import TagItGluster.Ec.Rounds
import TagItGluster.Ec.Versions
import TagItGluster.IoThreads.Runs
import TagItGluster.Ixsql.Complete
import TagItGluster.Libglusterfs.CommonUtils
import TagItGluster.Libglusterfs.FdTable
import TagItGluster.Libglusterfs.GidCache
import TagItGluster.Libglusterfs.InodeRuns
import TagItGluster.Libglusterfs.Numbers
import TagItGluster.Libglusterfs.Rbthash
import TagItGluster.Libglusterfs.RotBuffsRuns
import TagItGluster.Libglusterfs.Unserialize
import TagItGluster.Locks.Entrylk
import TagItGluster.Locks.Mandatory
import TagItGluster.Locks.Runs
import TagItGluster.Locks.Settling
import TagItGluster.Rpc.ClntFrames
import TagItGluster.Rpc.DrcRuns
import TagItGluster.Rpc.SendQueue
import TagItGluster.Server.Extractor
import TagItGluster.Shard.Size
import TagItGluster.Stripe.Refine
import TagItGluster.Upcall.Invalidate
import TagItGluster.Wb.Order
import TagItGluster.Xdb.FileName
import TagItGluster.Xdb.StatFrame
