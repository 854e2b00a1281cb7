import AnchoredBlocks.Main
import AnchoredBlocks.Proofs.BlockPlace
import AnchoredBlocks.Proofs.Characters
import AnchoredBlocks.Proofs.FreshFiles
import AnchoredBlocks.Proofs.PlannedEdits
import AnchoredBlocks.Proofs.Previews
import AnchoredBlocks.Proofs.Locations
import AnchoredBlocks.Proofs.PathTexts
import AnchoredBlocks.Proofs.Shapes
import AnchoredBlocks.Proofs.SharedTrees
import AnchoredBlocks.Proofs.FencedRuns
import AnchoredBlocks.Proofs.Surroundings
import AnchoredBlocks.Proofs.Replacements
import AnchoredBlocks.Proofs.SettledFiles
import AnchoredBlocks.Proofs.EditRulings
import AnchoredBlocks.Proofs.SpareFiles
import AnchoredBlocks.Proofs.OneEntry
import AnchoredBlocks.Proofs.CommandRuns
import AnchoredBlocks.Proofs.CompleteDefinitions
import AnchoredBlocks.Proofs.PinnedBlocks
import AnchoredBlocks.Proofs.FencedPlans
import AnchoredBlocks.Proofs.FenceVerdicts
import AnchoredBlocks.Proofs.Retries
import AnchoredBlocks.Proofs.StaleAnswers
import AnchoredBlocks.Proofs.CheckedSearch
import AnchoredBlocks.Proofs.ComposedEdits
import AnchoredBlocks.Proofs.NearLines
import AnchoredBlocks.Proofs.ToldFaults
