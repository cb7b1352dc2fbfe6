import ByteMachine.Main
import ByteMachine.Proofs.CommandLine.Choice
import ByteMachine.Proofs.Host.Dump
import ByteMachine.Proofs.Host.Switches
import ByteMachine.Proofs.Host.Verdict
import ByteMachine.Proofs.Machine.Atomicity
import ByteMachine.Proofs.Machine.Count
import ByteMachine.Proofs.Machine.Ending
import ByteMachine.Proofs.Machine.Enlargement
import ByteMachine.Proofs.Machine.Hazard
import ByteMachine.Proofs.Machine.History
import ByteMachine.Proofs.Machine.Missing
import ByteMachine.Proofs.Machine.Prefetch
import ByteMachine.Proofs.Machine.Reachable
import ByteMachine.Proofs.Machine.StraightLine
import ByteMachine.Proofs.Machine.Summary
import ByteMachine.Proofs.Machine.Table
import ByteMachine.Proofs.Machine.Verbose
import ByteMachine.Proofs.Memory.Dump
import ByteMachine.Proofs.Source.Acceptance
import ByteMachine.Proofs.Source.Composition
import ByteMachine.Proofs.Source.Disassembly
import ByteMachine.Proofs.Source.Exchange
import ByteMachine.Proofs.Source.Image
import ByteMachine.Proofs.Source.Layout
import ByteMachine.Proofs.Source.Malformed
import ByteMachine.Proofs.Source.Numerals
import ByteMachine.Proofs.Source.Reports
import ByteMachine.Proofs.Source.Room
import ByteMachine.Proofs.Stack.Matching
import ByteMachine.Proofs.Stack.Refinement
import ByteMachine.Proofs.Text.Numeral
