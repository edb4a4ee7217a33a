import Drocsid.ChatLine
import Drocsid.ChatText
import Drocsid.Permits
import Drocsid.Posts
import Drocsid.Chats
import Drocsid.Publication
import Drocsid.Network
import Drocsid.Locks
import Drocsid.RateLimit
import Drocsid.Mentions
import Drocsid.Departures
import Drocsid.Roster
import Drocsid.Broadcast
import Drocsid.Removal
import Drocsid.Readiness
import Drocsid.Admission
import Drocsid.Readers
import Drocsid.Interruptions
import Drocsid.Terminal
import Drocsid.Popup
import Drocsid.MessagesPanel
import Drocsid.EndToEnd
import Drocsid.Throttle
import Drocsid.Shutdown
import Drocsid.Naming
import Drocsid.OnScreen
import Drocsid.Drawn
