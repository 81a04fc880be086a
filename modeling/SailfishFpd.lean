import SailfishFpd.Session.CancelTimer
import SailfishFpd.Session.Ownership
import SailfishFpd.Session.Identification
import SailfishFpd.Session.Enrolment
import SailfishFpd.Session.HiddenTemplate
import SailfishFpd.Session.Progress
import SailfishFpd.Session.Refused
import SailfishFpd.Session.Replies
import SailfishFpd.Session.StateChanges
import SailfishFpd.Session.Isolation
import SailfishFpd.Store.Names
import SailfishFpd.Store.Unique
import SailfishFpd.Store.Listing
import SailfishFpd.Store.Loading
import SailfishFpd.Store.Wipe
import SailfishFpd.Store.HalSync
import SailfishFpd.Store.Interrupted
import SailfishFpd.Store.Torn
import SailfishFpd.Hal.Gatekeeper
import SailfishFpd.Hal.Instance
import SailfishFpd.Startup.GroupPath
import SailfishFpd.Startup.MakePath
import SailfishFpd.Hal.Stack
import SailfishFpd.Threads.Callbacks
import SailfishFpd.Hal.Agreement
import SailfishFpd.Store.Lives
import SailfishFpd.Session.Deadline
import SailfishFpd.Hal.Acquired
import SailfishFpd.Store.Monitor
