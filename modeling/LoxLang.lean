import LoxLang.Example
import LoxLang.Main
import LoxLang.Proofs.Grammar.Acceptance
import LoxLang.Proofs.Grammar.Recovery
import LoxLang.Proofs.Scope.Exactness
import LoxLang.Proofs.Session.Agreement
import LoxLang.Proofs.Session.CallLimit
import LoxLang.Proofs.Session.ErrorClasses
import LoxLang.Proofs.Session.Isolation
import LoxLang.Proofs.Session.Pieces
import LoxLang.Proofs.Session.Superclasses
import LoxLang.Proofs.Session.Termination
import LoxLang.Schema.Command
import LoxLang.Tree.Walk
import LoxLang.Proofs.Run.BlankFrames
import LoxLang.Proofs.Run.ForLoops
import LoxLang.Proofs.Run.SeenSites
import LoxLang.Proofs.Session.ForLoops
import LoxLang.Proofs.Token.Layout
import LoxLang.Proofs.Session.NodeNumbers
import LoxLang.Proofs.Session.WellFormed
import LoxLang.Proofs.Schema.Offence
import LoxLang.Proofs.Grammar.Tolerance
import LoxLang.Proofs.Grammar.Rereading
import LoxLang.Proofs.Session.Returns
import LoxLang.Proofs.Schema.Decoding
import LoxLang.Proofs.Example.LineNumbers
import LoxLang.Proofs.Example.Prediction
import LoxLang.Proofs.Example.Recording
import LoxLang.Proofs.Scope.Effect
import LoxLang.Proofs.Store.Assignment
