import Kingdom.Blockchain.Contract
import Kingdom.Blockchain.Digests
import Kingdom.Blockchain.MerkleRoot
import Kingdom.Blockchain.OnChain
import Kingdom.Blockchain.Pipeline
import Kingdom.Blockchain.Sidecar
import Kingdom.Blockchain.Verification
import Kingdom.Client.Account
import Kingdom.Client.Arrivals
import Kingdom.Client.Crypto
import Kingdom.Client.DecryptAtomicity
import Kingdom.Client.DisplayedOrigin
import Kingdom.Client.Effects
import Kingdom.Client.KeyBundle
import Kingdom.Client.KeyFile
import Kingdom.Client.KeyFileTampering
import Kingdom.Client.KeyFileWrites
import Kingdom.Client.KeyStoreRoundTrip
import Kingdom.Client.LocalKeyStore
import Kingdom.Client.LocalPaths
import Kingdom.Client.MainWindow
import Kingdom.Client.MessageCache
import Kingdom.Client.MessageStore
import Kingdom.Client.Messages
import Kingdom.Client.Migration
import Kingdom.Client.PinRaces
import Kingdom.Client.Pins
import Kingdom.Client.PreKeyUse
import Kingdom.Client.ReadOnce
import Kingdom.Client.Requests
import Kingdom.Client.RoundTrip
import Kingdom.Client.SignedPreKeys
import Kingdom.Client.StoreAuthenticity
import Kingdom.Client.StoreOpening
import Kingdom.Client.StoreRaces
import Kingdom.Client.StoreSessions
import Kingdom.Codec.Base64
import Kingdom.Codec.Decimal
import Kingdom.Codec.Json
import Kingdom.Codec.JsonPrefix
import Kingdom.Codec.JsonRoundTrip
import Kingdom.Codec.JsonSymbols
import Kingdom.Codec.JsonText
import Kingdom.Codec.JsonValid
import Kingdom.Codec.Text
import Kingdom.Limiter.FixedWindow
import Kingdom.Merkle.Tree
import Kingdom.Process.Eval
import Kingdom.Process.History
import Kingdom.Process.Interleave
import Kingdom.Process.Logged
import Kingdom.Process.Program
import Kingdom.Process.Projection
import Kingdom.Process.Sequential
import Kingdom.Process.Simulation
import Kingdom.Protocol.Attack
import Kingdom.Protocol.BundleRewrites
import Kingdom.Protocol.Delivery
import Kingdom.Protocol.Fetches
import Kingdom.Protocol.KeyCompromise
import Kingdom.Protocol.Library
import Kingdom.Protocol.MessageSecrecy
import Kingdom.Protocol.Network
import Kingdom.Protocol.PreKeyConsumption
import Kingdom.Protocol.SenderAuthentication
import Kingdom.Server.Answers
import Kingdom.Server.Authority
import Kingdom.Server.Base64Url
import Kingdom.Server.Bundle
import Kingdom.Server.BundleHistory
import Kingdom.Server.BundleReads
import Kingdom.Server.Conflicts
import Kingdom.Server.Contract
import Kingdom.Server.Controller
import Kingdom.Server.Handlers
import Kingdom.Server.Jwt
import Kingdom.Server.Logout
import Kingdom.Server.Machine
import Kingdom.Server.NewSession
import Kingdom.Server.Outcomes
import Kingdom.Server.ParticipantArray
import Kingdom.Server.PreKeys
import Kingdom.Server.RateLimit
import Kingdom.Server.Registration
import Kingdom.Server.Reports
import Kingdom.Server.Restart
import Kingdom.Server.Safety
import Kingdom.Server.Session
import Kingdom.Server.Store
import Kingdom.Server.StoreInv
import Kingdom.Server.TokenLifetime
import Kingdom.Server.Updates
import Kingdom.Server.Visibility
import Kingdom.Storage.Files
import Kingdom.Symbolic.Knowledge
import Kingdom.Symbolic.Terms
