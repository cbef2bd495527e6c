import Jack.Compiler.Session
import Jack.Machine.Writer
import Jack.Proofs.Bodies
import Jack.Proofs.Buffering
import Jack.Proofs.Constants
import Jack.Proofs.Culprits
import Jack.Proofs.Debugging
import Jack.Proofs.Delivery
import Jack.Proofs.Diagnosing
import Jack.Proofs.EntryPoints
import Jack.Proofs.Expecting
import Jack.Proofs.Fillers
import Jack.Proofs.Foresight
import Jack.Proofs.Heights
import Jack.Proofs.Independence
import Jack.Proofs.Interleaving
import Jack.Proofs.Labels
import Jack.Proofs.LineEnds
import Jack.Proofs.Listings
import Jack.Proofs.Numerals
import Jack.Proofs.OutputForm
import Jack.Proofs.Printing
import Jack.Proofs.Renaming
import Jack.Proofs.Reports
import Jack.Proofs.Resolution
import Jack.Proofs.Saving
import Jack.Proofs.Simulation
import Jack.Proofs.Slots
import Jack.Proofs.Strictness
import Jack.Proofs.Tables
import Jack.Proofs.Tagging
import Jack.Proofs.Transcripts
import Jack.Proofs.Values
import Jack.Workspace
