import TdhSocket.Client.RoundTrip
import TdhSocket.Client.RowCounts
import TdhSocket.Connection.Listening
import TdhSocket.Connection.Load
import TdhSocket.Connection.Recycling
import TdhSocket.Connection.SendLists
import TdhSocket.Connection.SocketOutput
import TdhSocket.Decode.Allocation
import TdhSocket.Decode.Bounds
import TdhSocket.Decode.CommonPart
import TdhSocket.Dispatch.Affinity
import TdhSocket.Dispatch.AuthCode
import TdhSocket.Dispatch.Strategy
import TdhSocket.Dispatch.Throttle
import TdhSocket.Encode.Precondition
import TdhSocket.Execute.Acknowledge
import TdhSocket.Execute.BatchTables
import TdhSocket.Execute.CommitFailure
import TdhSocket.Execute.FilterBuffer
import TdhSocket.Execute.Settling
import TdhSocket.Execute.StoredRows
import TdhSocket.Execute.TimeOut
import TdhSocket.Execute.Updating
import TdhSocket.Optimize.Rotation
import TdhSocket.RequestThread.Flush
import TdhSocket.RequestThread.Queue
import TdhSocket.RequestThread.SpinLock
import TdhSocket.RowCache.IndexFilter
import TdhSocket.RowCache.Rollback
import TdhSocket.Stream.Handoff
import TdhSocket.Tables.QueryCache
import TdhSocket.Util.StringCopy
