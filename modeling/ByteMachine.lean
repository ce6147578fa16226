import ByteMachine.Command
import ByteMachine.Derive.Expansion
import ByteMachine.FileTree
import ByteMachine.Main
import ByteMachine.Proofs.Atomicity
import ByteMachine.Proofs.Obstacle
import ByteMachine.Proofs.ReturnAddress
import ByteMachine.Proofs.History
import ByteMachine.Proofs.ProgramCounter
import ByteMachine.Proofs.BoundedStack
import ByteMachine.Proofs.Literal
import ByteMachine.Proofs.Denotation
import ByteMachine.Proofs.Source
import ByteMachine.Proofs.Numeral
import ByteMachine.Proofs.Session
import ByteMachine.Proofs.Resumption
import ByteMachine.Proofs.LastStore
import ByteMachine.Proofs.ExecutionState
import ByteMachine.Proofs.StaleMemory
import ByteMachine.Proofs.Course
import ByteMachine.Proofs.LostOutput
import ByteMachine.Proofs.Tracing
import ByteMachine.Proofs.Concatenation
import ByteMachine.Proofs.ErrorPlace
import ByteMachine.Proofs.Layout
import ByteMachine.Proofs.StackPrimitives
import ByteMachine.Proofs.MicroOperation
import ByteMachine.Proofs.RegisterMove
import ByteMachine.Proofs.StraightLine
import ByteMachine.Proofs.Arithmetic
import ByteMachine.Proofs.TraceLine
import ByteMachine.Proofs.Arguments
import ByteMachine.Proofs.Diagnostic
import ByteMachine.Proofs.Derive.Capture
import ByteMachine.Proofs.Derive.Escape
import ByteMachine.Proofs.LastWriter
import ByteMachine.Proofs.FaultMessage
import ByteMachine.Proofs.Logging
import ByteMachine.Proofs.Dispatch
