import KungFuChess.Machine
import KungFuChess.Numbers
import KungFuChess.StableSort
import KungFuChess.Board
import KungFuChess.BoardParser
import KungFuChess.Rules
import KungFuChess.LegalMoves
import KungFuChess.Arbiter
import KungFuChess.Engine
import KungFuChess.Arrival
import KungFuChess.Batch
import KungFuChess.Runs
import KungFuChess.Room
import KungFuChess.Chronicle
import KungFuChess.Status
import KungFuChess.Conservation
import KungFuChess.Score
import KungFuChess.Representation
import KungFuChess.Rests
import KungFuChess.Schedule
import KungFuChess.Identity
import KungFuChess.TickSize
import KungFuChess.Symmetry
import KungFuChess.Messages
import KungFuChess.ServerLink
import KungFuChess.Mirror
import KungFuChess.DisconnectWatch
import KungFuChess.Audience
import KungFuChess.Match
import KungFuChess.MatchSteps
import KungFuChess.Verdict
import KungFuChess.Spectators
import KungFuChess.Presence
import KungFuChess.LogFollower
import KungFuChess.Joiner
import KungFuChess.Delivery
import KungFuChess.JoinerView
import KungFuChess.ExactlyOnce
import KungFuChess.Viewer
import KungFuChess.Following
import KungFuChess.Interleaved
import KungFuChess.Moving
import KungFuChess.Tidings
import KungFuChess.Predictions
import KungFuChess.Ghosts
import KungFuChess.RoomManager
import KungFuChess.Ledger
import KungFuChess.RoomSteps
import KungFuChess.Seating
import KungFuChess.RefCount
import KungFuChess.Accounts
import KungFuChess.Routing
import KungFuChess.Redirects
import KungFuChess.Reaping
import KungFuChess.Reclaim
import KungFuChess.Attachment
import KungFuChess.Stillness
import KungFuChess.TwoPlayers
import KungFuChess.Forfeit
import KungFuChess.NoReturn
import KungFuChess.TickRate
import KungFuChess.DecidingWait
import KungFuChess.Holders
import KungFuChess.OneConnection
import KungFuChess.Json
import KungFuChess.JsonText
import KungFuChess.Wire
import KungFuChess.RoundTrip
import KungFuChess.WelcomeSize
import KungFuChess.JsonSyntax
import KungFuChess.Redaction
import KungFuChess.Scanner
import KungFuChess.PasswordKey
import KungFuChess.Leases
import KungFuChess.ClientSession
import KungFuChess.SessionSteps
import KungFuChess.OneSession
import KungFuChess.SeatNames
import KungFuChess.Authority
import KungFuChess.Hosting
import KungFuChess.Attends
import KungFuChess.Takers
import KungFuChess.Rivals
import KungFuChess.Opponents
import KungFuChess.Ratings
import KungFuChess.FixedWindow
import KungFuChess.RateLimiter
import KungFuChess.ExpiringMap
import KungFuChess.Placement
import KungFuChess.UserTable
import KungFuChess.HttpApi
import KungFuChess.AccountSteps
import KungFuChess.Credentials
import KungFuChess.Secrets
import KungFuChess.Guesses
import KungFuChess.Fleet
import KungFuChess.Lifecycle
import KungFuChess.SharedDirectory
import KungFuChess.Lookups
import KungFuChess.Scheduler
import KungFuChess.Driving
import KungFuChess.Settling
import KungFuChess.OneTick
import KungFuChess.Controller
import KungFuChess.Words
import KungFuChess.BoardText
import KungFuChess.Hud
import KungFuChess.SharedList
import KungFuChess.AudienceCounts
import KungFuChess.SharedAudience
import KungFuChess.Countdown
import KungFuChess.Script
import KungFuChess.SimulatedTime
import KungFuChess.Nearest
import KungFuChess.Matchmaking
