import TeleBezel.Watch.RequestOnce
import TeleBezel.Watch.RequestTimer
import TeleBezel.Watch.HistoryTop
import TeleBezel.Watch.HistoryRequests
import TeleBezel.Watch.HistoryRefresh
import TeleBezel.Watch.Refreshing
import TeleBezel.Phone.SendDoubt
import TeleBezel.Phone.SendKeys
import TeleBezel.Phone.UpdatesHeard
import TeleBezel.Phone.Transport
import TeleBezel.Link.Retry
import TeleBezel.Link.Shown
import TeleBezel.Link.MediaTransfer
import TeleBezel.Link.PickedReply
import TeleBezel.Api.OneOrder
import TeleBezel.Api.OneConfiguration
import TeleBezel.Api.Snapshots
import TeleBezel.Api.OwnerAccess
import TeleBezel.Api.ProxyMonitor
import TeleBezel.Api.Renditions
import TeleBezel.Api.AccountCreation
import TeleBezel.Api.PassesFair
import TeleBezel.Runtime.BrokerOutcomes
import TeleBezel.Runtime.SendFailed
import TeleBezel.Runtime.OneSend
import TeleBezel.Runtime.SendIndexes
import TeleBezel.Runtime.Rejections
import TeleBezel.Runtime.ClientAccounts
import TeleBezel.Runtime.Generations
import TeleBezel.Runtime.LogoutConfirmed
import TeleBezel.Runtime.Cursors
import TeleBezel.Runtime.ChatPages
import TeleBezel.Runtime.HistoryPages
import TeleBezel.Runtime.Previews
import TeleBezel.Runtime.CacheConsistent
import TeleBezel.Qr.Reader
import TeleBezel.Api.QuickReplyOrder
import TeleBezel.Api.SendEvents
import TeleBezel.Link.StatesHeard
import TeleBezel.Watch.Pull
import TeleBezel.Watch.ConnectionPolls
import TeleBezel.Runtime.RefreshQueue
import TeleBezel.Watch.Format
import TeleBezel.Watch.ChatsContents
import TeleBezel.Phone.TextLimit
import TeleBezel.Api.DeliveredText
import TeleBezel.Watch.Ids
import TeleBezel.Link.Cuts
import TeleBezel.Link.Rendered
import TeleBezel.Api.Credentials
import TeleBezel.Watch.Notify
import TeleBezel.Watch.Session
