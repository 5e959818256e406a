import Gargantua.HttpFraming
import Gargantua.DbNested
import Gargantua.TransactionScope
import Gargantua.MigrateExact
import Gargantua.RouteParams
import Gargantua.JsonExact
import Gargantua.DbMark
import Gargantua.DbThreads
import Gargantua.ServerConnections
import Gargantua.GeneratorAuth
import Gargantua.EmittedTypes
import Gargantua.ServerRead
import Gargantua.BodyBinding
import Gargantua.BodyLeaves
import Gargantua.ClientRuns
import Gargantua.RouteFind
import Gargantua.QueryParse
import Gargantua.JsonTree
import Gargantua.FetchRequest
import Gargantua.SendResponse
import Gargantua.StoreRefines
import Gargantua.OpenapiDocument
import Gargantua.ResponseMap
import Gargantua.ReplyFraming
import Gargantua.FetchJson
import Gargantua.PatchKey
import Gargantua.StaticFiles
import Gargantua.CorsSound
import Gargantua.UnescapeInPlace
import Gargantua.NestingDepth
import Gargantua.ChunkedInPlace
import Gargantua.FetchConnect
import Gargantua.ConfigLoad
import Gargantua.ArenaRuns
import Gargantua.StripComments
import Gargantua.TemplateExact
import Gargantua.GuardRuns
import Gargantua.EmailGrammar
import Gargantua.PartialWrites
import Gargantua.TruncatedCopy
import Gargantua.ModelIncludes
import Gargantua.OpenapiExact
import Gargantua.OmittedMembers
import Gargantua.JsonRoundTrip
import Gargantua.DbRow
import Gargantua.DbSearch
import Gargantua.CrudEmit
import Gargantua.CrudRun
