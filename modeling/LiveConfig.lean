import LiveConfig.Binding.Shape
import LiveConfig.Endpoint
import LiveConfig.Main
import LiveConfig.Proofs.CodeUnits
import LiveConfig.Proofs.Concern
import LiveConfig.Proofs.Convergence
import LiveConfig.Proofs.Debounce
import LiveConfig.Proofs.Differences
import LiveConfig.Proofs.Forwarding
import LiveConfig.Proofs.Resolutions
import LiveConfig.Proofs.LayoutReading
import LiveConfig.Proofs.Lookout
import LiveConfig.Proofs.NamelessProperties
import LiveConfig.Proofs.Precedence
import LiveConfig.Proofs.Reopening
import LiveConfig.Proofs.SecretValues
import LiveConfig.Proofs.Sessions
import LiveConfig.Proofs.StreamRuns
import LiveConfig.Proofs.TreeSize
import LiveConfig.Proofs.Unflattening
import LiveConfig.Proofs.UnitEscapes
import LiveConfig.Watch.Script
