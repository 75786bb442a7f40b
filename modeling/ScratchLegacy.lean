import ScratchLegacy.Main
import ScratchLegacy.Proofs.LiveData
import ScratchLegacy.Proofs.SlotFilling
import ScratchLegacy.Proofs.ScriptFailure
import ScratchLegacy.Proofs.ScriptGrowth
import ScratchLegacy.Proofs.ItemNumbers
import ScratchLegacy.Proofs.WrittenData
import ScratchLegacy.Proofs.AssetBytes
import ScratchLegacy.Proofs.ProccodePieces
import ScratchLegacy.Proofs.CallResolution
import ScratchLegacy.Proofs.ParameterScope
import ScratchLegacy.Proofs.RepeatedConditions
import ScratchLegacy.Proofs.TriggeredScripts
import ScratchLegacy.Proofs.IndexScan
import ScratchLegacy.Proofs.DocumentOrder
import ScratchLegacy.Proofs.DocumentRenaming
import ScratchLegacy.Proofs.CallArguments
import ScratchLegacy.Proofs.ColorTexts
import ScratchLegacy.Proofs.WaveChunks
import ScratchLegacy.Proofs.DeclaredData
import ScratchLegacy.Proofs.StoredValues
import ScratchLegacy.Proofs.IndexHygiene
import ScratchLegacy.Proofs.RunEffects
