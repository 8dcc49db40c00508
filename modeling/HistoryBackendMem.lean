import HistoryBackendMem.Basic
import HistoryBackendMem.Log.Chain
import HistoryBackendMem.Log.Line
import HistoryBackendMem.Log.Cleanup
import HistoryBackendMem.Store.Table
import HistoryBackendMem.Store.Map
import HistoryBackendMem.Store.Request
import HistoryBackendMem.Store.Invariant
import HistoryBackendMem.Persist.Codec
import HistoryBackendMem.Config.Hooks
import HistoryBackendMem.Persist.File
import HistoryBackendMem.System.Clean
import HistoryBackendMem.System.Step
import HistoryBackendMem.System.Invariant
import HistoryBackendMem.System.Map
import HistoryBackendMem.System.Persist
import HistoryBackendMem.System.Cache
import HistoryBackendMem.System.Config
import HistoryBackendMem.System.Flush
import HistoryBackendMem.System.Load
import HistoryBackendMem.System.Service
import HistoryBackendMem.System.Progress
import HistoryBackendMem.System.Boot
import HistoryBackendMem.System.Isolation
import HistoryBackendMem.System.Writes
import HistoryBackendMem.System.Restart
import HistoryBackendMem.Third.Noglobalmsg
