import EcmaMachine.Realm.Bench
import EcmaMachine.Main
import EcmaMachine.Proofs.Continuation
import EcmaMachine.Proofs.Events
import EcmaMachine.Proofs.Observation
import EcmaMachine.Proofs.Budget.Confinement
import EcmaMachine.Proofs.Once.AtMostOnce
import EcmaMachine.Proofs.Suspension
import EcmaMachine.Proofs.Remote.Exchange
import EcmaMachine.Proofs.Region.Declarations
import EcmaMachine.Proofs.Tree.RoundTrip
import EcmaMachine.Proofs.Lineage.Hierarchy
import EcmaMachine.Proofs.Supported
import EcmaMachine.Proofs.Twin.Cache
import EcmaMachine.Proofs.Wire.Scopes
import EcmaMachine.Proofs.Arrays.Writes
import EcmaMachine.Proofs.Wire.Stringify
import EcmaMachine.Proofs.Members
import EcmaMachine.Proofs.TryStatement
import EcmaMachine.Proofs.Binding.Calls
import EcmaMachine.Proofs.Loops.Rounds
import EcmaMachine.Proofs.Grammar.Agreement
import EcmaMachine.Proofs.Joins
import EcmaMachine.Proofs.Objects
import EcmaMachine.Proofs.Tags
import EcmaMachine.Proofs.Bitwise
import EcmaMachine.Proofs.Interleaving
