import StackCalc.Main
import StackCalc.Proofs.Blame
import StackCalc.Proofs.Composition
import StackCalc.Proofs.Reconstruction
import StackCalc.Proofs.Ending
import StackCalc.Proofs.Inlining
import StackCalc.Proofs.Binding
import StackCalc.Proofs.Reachability
import StackCalc.Proofs.StackEffects
import StackCalc.Proofs.Locality
import StackCalc.Proofs.Keywords
import StackCalc.Proofs.Faults
import StackCalc.Proofs.Completion
import StackCalc.Proofs.Interaction
import StackCalc.Proofs.Reports
import StackCalc.Proofs.Relevance
import StackCalc.Proofs.Nesting
import StackCalc.Proofs.Stores
import StackCalc.Proofs.SavedSettings
import StackCalc.Proofs.Dependence
import StackCalc.Proofs.Mapping
import StackCalc.Proofs.DeclaredEffects
import StackCalc.Proofs.FixedPlaces
import StackCalc.Proofs.Forgetting
import StackCalc.Proofs.Folding
import StackCalc.Proofs.Fusion
import StackCalc.Proofs.Rejoining
import StackCalc.Proofs.PlacedNodes
import StackCalc.Proofs.ErrorContext
import StackCalc.Proofs.HostFunctions
import StackCalc.Proofs.Registration
import StackCalc.Proofs.InlineDefinitions
import StackCalc.Proofs.DefinitionOrder
import StackCalc.Proofs.Signs
import StackCalc.Proofs.BaseNumerals
import StackCalc.Proofs.BaseConversions
import StackCalc.Proofs.Rounding
import StackCalc.Proofs.ColourChannels
import StackCalc.Proofs.LoadedSettings
import StackCalc.Proofs.UnreadableScripts
import StackCalc.Proofs.CommonDivisors
import StackCalc.Proofs.PrintedNumbers
import StackCalc.Proofs.LostWords
import StackCalc.Proofs.Tracing
import StackCalc.Proofs.PlainTexts
import StackCalc.Proofs.Rotations
import StackCalc.Proofs.Extremes
