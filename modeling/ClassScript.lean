import ClassScript.Main
import ClassScript.Proofs.Addressing
import ClassScript.Proofs.Agreement
import ClassScript.Proofs.Annotations
import ClassScript.Proofs.Attribution
import ClassScript.Proofs.Constructors
import ClassScript.Proofs.Containers
import ClassScript.Proofs.Contexts
import ClassScript.Proofs.Cutoff
import ClassScript.Proofs.Cycles
import ClassScript.Proofs.Dispatch
import ClassScript.Proofs.Entries
import ClassScript.Proofs.Literals
import ClassScript.Proofs.Offsets
import ClassScript.Proofs.Precedence
import ClassScript.Proofs.Recovery
import ClassScript.Proofs.Rendering
import ClassScript.Proofs.Reordering
import ClassScript.Proofs.Transfers
