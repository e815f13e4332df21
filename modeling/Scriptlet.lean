import Scriptlet.Main
import Scriptlet.Token.Cursor
import Scriptlet.Tree.NodeType
import Scriptlet.Proofs.TreeEquality
import Scriptlet.Proofs.Shape
import Scriptlet.Proofs.Phrase
import Scriptlet.Proofs.Prefix
import Scriptlet.Proofs.Following
import Scriptlet.Proofs.Scanning
import Scriptlet.Proofs.Lockstep
import Scriptlet.Proofs.Opening
import Scriptlet.Proofs.Recognition
import Scriptlet.Proofs.CorrectPrefix
import Scriptlet.Proofs.Levels
import Scriptlet.Proofs.NestingLimit
import Scriptlet.Proofs.TreeHeight
import Scriptlet.Proofs.TallPrograms
import Scriptlet.Proofs.Steps
import Scriptlet.Proofs.History
import Scriptlet.Proofs.LevelCount
import Scriptlet.Proofs.ProductionCode
import Scriptlet.Proofs.CodeRuns
import Scriptlet.Proofs.TokenStream
import Scriptlet.Proofs.Weaving
import Scriptlet.Proofs.Spans
import Scriptlet.Proofs.KeptTokens
import Scriptlet.Proofs.Gaps
import Scriptlet.Proofs.Lossless
import Scriptlet.Proofs.Relocation
import Scriptlet.Proofs.Blindness
import Scriptlet.Proofs.Locality
import Scriptlet.Proofs.JoinedFeeds
import Scriptlet.Proofs.JoinedSources
import Scriptlet.Proofs.FailureStates
import Scriptlet.Proofs.Positionless
import Scriptlet.Proofs.PatternTable
import Scriptlet.Proofs.MatchEnds
import Scriptlet.Proofs.Filler
import Scriptlet.Proofs.StartingOver
import Scriptlet.Proofs.StringLiterals
import Scriptlet.Proofs.JsonText
import Scriptlet.Proofs.JsonLayout
import Scriptlet.Proofs.JsonTree
import Scriptlet.Proofs.LineBreaks
import Scriptlet.Proofs.Regex
import Scriptlet.Proofs.LongestMatch
import Scriptlet.Proofs.Escapes
import Scriptlet.Proofs.LinePlaces
import Scriptlet.Proofs.Carets
import Scriptlet.Proofs.LineNumbers
import Scriptlet.Proofs.CursorSearch
import Scriptlet.Proofs.Halting
