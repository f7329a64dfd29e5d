import MiniVisa.Server.TwoPhaseCommit
import MiniVisa.Server.TransactionLog
import MiniVisa.Server.CoordinatorTable
import MiniVisa.Server.PreparedTransactions
import MiniVisa.Server.RowVisibility
import MiniVisa.Server.SharedSession
import MiniVisa.Server.Handler.Segmentation
import MiniVisa.Server.Handler.Authentication
import MiniVisa.Server.Handler.Cursors
import MiniVisa.Server.Handler.Refusal
import MiniVisa.Server.Handler.WellFormed
import MiniVisa.Server.Handler.BodyAssembly
import MiniVisa.Server.Handler.Masking
import MiniVisa.Server.Handler.Equivalence
import MiniVisa.Server.Handler.Lifetimes
import MiniVisa.Server.Handler.Outcomes
import MiniVisa.Server.Handler.Replies
import MiniVisa.Server.LogFile
import MiniVisa.Server.Metrics
import MiniVisa.Server.ThreadPool
import MiniVisa.Server.Wakeups
import MiniVisa.Server.Connections
import MiniVisa.Server.Settlement
import MiniVisa.Server.Idempotency
import MiniVisa.Server.SqlCommands
import MiniVisa.Server.CircuitBreaker
import MiniVisa.Server.ClearingHold
import MiniVisa.Server.CardShape
import MiniVisa.Server.FlatJson
import MiniVisa.Server.EmittedJson
import MiniVisa.Server.Velocity
import MiniVisa.Server.Backoff
import MiniVisa.Server.ReversalQueue
import MiniVisa.Server.Teardown
import MiniVisa.Microservices.Finality
import MiniVisa.Microservices.Agreement
import MiniVisa.Microservices.RiskService
import MiniVisa.Microservices.Http
import MiniVisa.Microservices.Admission
import MiniVisa.Microservices.TypingErrors
import MiniVisa.Microservices.Masking
import MiniVisa.Microservices.Velocity
import MiniVisa.Microservices.Preparation
