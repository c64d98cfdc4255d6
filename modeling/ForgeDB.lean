import ForgeDB.ByteStrings
import ForgeDB.FeedbackRegisters
import ForgeDB.LayeredMaps
import ForgeDB.CrashPrograms
import ForgeDB.StreamFraming
import ForgeDB.CheckedAccess
import ForgeDB.TextStreams
import ForgeDB.Serialization
import ForgeDB.HeaderTypes
import ForgeDB.MemTables
import ForgeDB.WalRecords
import ForgeDB.Crc32
import ForgeDB.FilePaths
import ForgeDB.WalFiles
import ForgeDB.WalRecovery
import ForgeDB.LogTails
import ForgeDB.LogOperations
import ForgeDB.WalCuts
import ForgeDB.WalDamage
import ForgeDB.WalLimits
import ForgeDB.SSTables
import ForgeDB.TableDamage
import ForgeDB.TableFiles
import ForgeDB.Manifests
import ForgeDB.ManifestTexts
import ForgeDB.StorageEngine
import ForgeDB.TableViews
import ForgeDB.ManifestLines
import ForgeDB.ReadPaths
import ForgeDB.FlushSteps
import ForgeDB.CommandParser
import ForgeDB.Databases
import ForgeDB.Restarts
import ForgeDB.MapRefinement
import ForgeDB.CompactionSteps
import ForgeDB.CompactionLoss
import ForgeDB.FlushCrashes
import ForgeDB.ReachedStates
import ForgeDB.RestartAnswers
import ForgeDB.Reopening
import ForgeDB.StartupDamage
import ForgeDB.TableTracking
import ForgeDB.DirectoryRebuilds
import ForgeDB.ReadAnswers
import ForgeDB.TableIds
import ForgeDB.CleanTables
import ForgeDB.SizeAccounting
import ForgeDB.FailedWrites
import ForgeDB.ManifestUpdates
import ForgeDB.TornTailAppends
import ForgeDB.Protocol
import ForgeDB.CommandGrammar
import ForgeDB.DecoderBounds
import ForgeDB.Connections
import ForgeDB.RequestOrder
import ForgeDB.StreamSplits
import ForgeDB.Servers
import ForgeDB.ServerMoves
import ForgeDB.ServerLifetimes
import ForgeDB.ServerExchanges
import ForgeDB.ServerProgress
import ForgeDB.ConnectionViews
import ForgeDB.Linearizability
import ForgeDB.Clients
import ForgeDB.Systems
import ForgeDB.FairRuns
import ForgeDB.SystemProgress
import ForgeDB.StoreSystems
import ForgeDB.Deaths
import ForgeDB.Lives
import ForgeDB.UnflushedWrites
import ForgeDB.HonestStores
import ForgeDB.StorageCrashes
import ForgeDB.CommandCrashes
