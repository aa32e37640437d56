import Aedis.Resp3.Type
import Aedis.Resp3.Composer
import Aedis.Resp3.Wire
import Aedis.Resp3.Parser
import Aedis.Resp3.Frame
import Aedis.Resp3.Stream
import Aedis.Resp3.Accepted
import Aedis.Resp3.Command
import Aedis.Connection.Basic
import Aedis.Connection.Cancel
import Aedis.Connection.Queue
import Aedis.Connection.Reader
import Aedis.Machine.Step
import Aedis.Machine.Order
import Aedis.Machine.Accounting
import Aedis.Machine.Dispatch
import Aedis.Machine.Writes
import Aedis.Machine.Routing
import Aedis.Machine.Progress
import Aedis.Machine.ReadLoop
import Aedis.Machine.Fifo
import Aedis.Machine.Ledger
import Aedis.Machine.Wakes
