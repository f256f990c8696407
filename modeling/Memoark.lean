import Memoark.Filter.Negation
import Memoark.Filter.Placeholders
import Memoark.Store.SettingCache
import Memoark.Server.ListOrder
import Memoark.Server.UpdateUnchanged
import Memoark.Server.UpdateMemo
import Memoark.Server.PayloadRuns
import Memoark.Json.Parse
import Memoark.Time.Calendar
import Memoark.Import.Parser
import Memoark.Import.Service
import Memoark.Import.Accounting
import Memoark.Import.Agreement
import Memoark.Settings.Store
import Memoark.Settings.Service
import Memoark.Settings.Providers
import Memoark.Settings.RoundTrip
import Memoark.Program.Durable
import Memoark.Migration.Version
import Memoark.Migration.Migrator
import Memoark.Migration.Execution
import Memoark.Migration.Recovery
import Memoark.Store.UserTokens
import Memoark.Store.Tables
import Memoark.Server.DeleteMemo
import Memoark.Graph.Closure
import Memoark.Store.DeleteUser
import Memoark.Store.DeletedUser
import Memoark.Editor.Cache
import Memoark.Editor.Session
import Memoark.Editor.SavedDraft
import Memoark.Store.RowCache
import Memoark.Store.RowCoherence
import Memoark.Server.MemoMessages
import Memoark.Server.ResolveSSOUser
import Memoark.Server.FirstLogin
import Memoark.Server.CreateMemoComment
import Memoark.Server.CommentRetry
import Memoark.Logic.Precedence
import Memoark.Filter.Shape
import Memoark.Filter.Checked
import Memoark.Filter.Dialects
import Memoark.Program.Alike
import Memoark.Filter.Reading
import Memoark.Filter.Conditions
import Memoark.Syntax.Lexer
import Memoark.Syntax.Expression
import Memoark.Filter.Lexemes
import Memoark.Filter.Completeness
import Memoark.Syntax.Cut
import Memoark.Cel.Grammar
import Memoark.Cel.Value
import Memoark.Cel.Reference
import Memoark.Js.Json
import Memoark.Web.MemoFilters
import Memoark.Cel.Join
import Memoark.Web.Conditions
import Memoark.Web.Combination
import Memoark.Filter.Agreement
import Memoark.Import.Transactions
import Memoark.Server.Accounts
import Memoark.Server.FirstAdmin
import Memoark.Editor.CacheService
import Memoark.Editor.Debounce
import Memoark.Net.Http
import Memoark.Fetch.HtmlMeta
import Memoark.Fetch.Webhook
import Memoark.Server.ReadAgreement
import Memoark.Server.WriteAccess
import Memoark.Server.CommentVisibility
import Memoark.Web.ExportRuns
import Memoark.Js.Strings
import Memoark.Js.JsonText
import Memoark.Js.JsonFuel
import Memoark.Js.JsonRoundTrip
import Memoark.Editor.DraftCodec
import Memoark.Editor.DraftRoundTrip
import Memoark.Go.Time
import Memoark.Go.Strings
import Memoark.Scheduler.Cron
import Memoark.Scheduler.CronMeaning
import Memoark.Scheduler.JobLoop
import Memoark.Scheduler.Lifecycle
import Memoark.Server.SseHub
import Memoark.Go.Sync
import Memoark.Store.SizedCache
import Memoark.Web.UpdateMemoCache
import Memoark.Web.Logout
import Memoark.Server.AttachmentAccess
import Memoark.Go.Base64
import Memoark.Go.Protowire
import Memoark.Store.MemoOrder
import Memoark.Server.Pagination
import Memoark.Logic.Like
import Memoark.Filter.Databases
import Memoark.Filter.Parts
import Memoark.Filter.TextSearch
import Memoark.Filter.TagSearch
import Memoark.Markdown.InlineLoop
import Memoark.Markdown.Tag
import Memoark.Markdown.Mention
import Memoark.Web.RemarkTag
import Memoark.Web.RemarkMention
import Memoark.Syntax.Split
import Memoark.Js.TextDecoder
import Memoark.Web.EventJson
import Memoark.Web.LiveRefresh
import Memoark.Server.Rss
import Memoark.Server.RssCache
import Memoark.Server.RssLinks
import Memoark.Server.ChildWrites
import Memoark.Server.CreateFailures
import Memoark.Server.UpdateFailures
import Memoark.Server.SetRelations
import Memoark.Server.WriteBack
import Memoark.Import.Verdicts
import Memoark.Import.Counts
import Memoark.Import.Strict
import Memoark.Json.Written
import Memoark.Import.Lossless
import Memoark.Filter.BoolFields
import Memoark.Program.Emit
import Memoark.Filter.PartArgs
import Memoark.Filter.Numbers
import Memoark.Editor.PendingDraft
import Memoark.Program.Contract
import Memoark.Server.UpdateFrame
import Memoark.Editor.MemoService
import Memoark.Editor.Untouched
import Memoark.Store.DeleteUserMySQL
import Memoark.Syntax.Occurrences
import Memoark.Web.HeadingIds
import Memoark.Web.AttachmentItems
import Memoark.Web.AttachmentMoves
import Memoark.Web.FilterSync
import Memoark.Paging.Ties
import Memoark.Server.ListAttachments
import Memoark.Server.RelationTools
import Memoark.Js.Url
import Memoark.Web.RedirectSafety
import Memoark.System.ReadThrough
import Memoark.Store.UserSettings
import Memoark.Server.Shortcuts
import Memoark.Server.MotionGroups
import Memoark.Server.SetAttachments
import Memoark.Server.UserStats
import Memoark.Store.Eviction
import Memoark.Markdown.Walk
import Memoark.Markdown.Extract
import Memoark.Markdown.Snippet
import Memoark.Markdown.Renderer
import Memoark.Markdown.RenameTag
import Memoark.Server.Mentions
import Memoark.Web.TaskMarkers
import Memoark.Web.TaskActions
import Memoark.Media.MotionPhoto
import Memoark.Net.Email
import Memoark.Web.LinkSearch
import Memoark.Web.SplitTaskLists
import Memoark.Js.Number
import Memoark.Web.EditorKeys
import Memoark.Web.ListCompletion
import Memoark.Server.MemoShares
import Memoark.Json.Print
import Memoark.Time.Rfc3339
import Memoark.Web.ExportImport
import Memoark.Web.ExportRestored
import Memoark.Web.MemoSorting
