import SpmMulti.Lib.PositionalNumeral
import SpmMulti.Lib.StreamSegments
import SpmMulti.Lib.StepRuns
import SpmMulti.Lib.SextetCode
import SpmMulti.Lib.OverlaidMemory
import SpmMulti.Lib.DelimitedWords
import SpmMulti.Lib.DescriptorSessions
import SpmMulti.Lib.OpenHandles
import SpmMulti.Lib.WaitingPrograms
import SpmMulti.Lib.OrderedMaps
import SpmMulti.Lib.BlockHistory
import SpmMulti.Lib.WordMemory
import SpmMulti.Lib.PowerPC
import SpmMulti.Lib.ByteSums
import SpmMulti.Lib.JsonText
import SpmMulti.Lib.SpanScanner
import SpmMulti.Machine
import SpmMulti.Strtoul
import SpmMulti.Base64
import SpmMulti.Split
import SpmMulti.Console
import SpmMulti.CommandManager
import SpmMulti.Commands
import SpmMulti.RegistryGuarantees
import SpmMulti.Handling
import SpmMulti.Receive
import SpmMulti.ReceiveGuarantees
import SpmMulti.DispatchGuarantees
import SpmMulti.TokenGuarantees
import SpmMulti.GuardGuarantees
import SpmMulti.EffectConfinement
import SpmMulti.Client
import SpmMulti.Replies
import SpmMulti.AcceptanceGuarantees
import SpmMulti.ReceiverLoop
import SpmMulti.ReplyGuarantees
import SpmMulti.ConnectionLife
import SpmMulti.Http
import SpmMulti.HttpGuarantees
import SpmMulti.CoreJson
import SpmMulti.JsonScanners
import SpmMulti.JsonGuarantees
import SpmMulti.JsonMembers
import SpmMulti.JsonSearch
import SpmMulti.JsonIterate
import SpmMulti.CoreHttp
import SpmMulti.HeaderBuffer
import SpmMulti.Transfer
import SpmMulti.RequestGuarantees
import SpmMulti.ResponseParser
import SpmMulti.ResponseMessage
import SpmMulti.ResponseGuarantees
import SpmMulti.HttpExchange
import SpmMulti.Isolation
import SpmMulti.EndToEnd
import SpmMulti.StoreGuarantees
import SpmMulti.ClientSessions
import SpmMulti.NetworkStartup
import SpmMulti.StartupGuarantees
import SpmMulti.ServerStart
import SpmMulti.Patch
import SpmMulti.PatchGuarantees
import SpmMulti.SaveFile
