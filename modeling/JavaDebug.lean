import JavaDebug.SurfacedHits
import JavaDebug.ReadWaves
import JavaDebug.HeldThreads
import JavaDebug.RefusedArming
import JavaDebug.CallerScope
import JavaDebug.SnapshotRing
import JavaDebug.EscalationHolds
import JavaDebug.UndecodedEvents
import JavaDebug.PacketFraming
import JavaDebug.TypeCache
import JavaDebug.FaithfulExports
import JavaDebug.EventAccounting
import JavaDebug.PrintedConditions
import JavaDebug.DisarmedIds
import JavaDebug.ResumeVerdicts
import JavaDebug.ClassReads
import JavaDebug.StrictSignatures
import JavaDebug.FloatCasts
import JavaDebug.TaggedValues
import JavaDebug.Reservations
import JavaDebug.HeadHits
import JavaDebug.ThreadListings
import JavaDebug.LineResolution
import JavaDebug.NamePatterns
import JavaDebug.HitAccounts
import JavaDebug.ForecastAspects
import JavaDebug.StaleVerdicts
import JavaDebug.StackPackets
import JavaDebug.InstanceAnswers
import JavaDebug.AlertDrops
import JavaDebug.ArmedSets
import JavaDebug.Residues
import JavaDebug.PushedCounts
import JavaDebug.Threadless
import JavaDebug.AccountedRenders
import JavaDebug.QueryFlushes
import JavaDebug.LawfulRecords
import JavaDebug.SharedStopwatch
import JavaDebug.MethodDescriptors
