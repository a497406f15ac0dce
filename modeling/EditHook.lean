import EditHook.Main
import EditHook.Proofs.DispatchRun
import EditHook.Proofs.HookExits
import EditHook.Proofs.Spelling
import EditHook.Proofs.Placeholder
import EditHook.Proofs.RoundTrip
import EditHook.Proofs.Nesting
import EditHook.Proofs.RootScope
import EditHook.Proofs.GlobSteps
import EditHook.Proofs.GlobBelow
import EditHook.Proofs.Alternatives
import EditHook.Proofs.GlobWriting
import EditHook.Proofs.GlobReading
import EditHook.Proofs.JsonWriting
import EditHook.Proofs.Utf8Text
import EditHook.Proofs.JsonReading
import EditHook.Proofs.JsonSkimming
import EditHook.Proofs.PayloadReading
import EditHook.Proofs.Building
import EditHook.Proofs.Offsets
import EditHook.Proofs.Concatenation
import EditHook.Proofs.ChosenTable
import EditHook.Proofs.JsonGrammar
import EditHook.Proofs.JsonNumbers
import EditHook.Proofs.PayloadForms
import EditHook.Proofs.JsonTrees
import EditHook.Proofs.PayloadIndependence
import EditHook.Proofs.FirstMistake
import EditHook.Proofs.SeenPaths
import EditHook.Proofs.GlobFaults
import EditHook.Proofs.RootTexts
import EditHook.Proofs.TrailingArguments
import EditHook.Proofs.NodePlaces
import EditHook.Proofs.GlobCharacters
