import SelectionRecall.Proofs.Expansion.Variables
import SelectionRecall.Proofs.Session.History

/-!
# Sessions learn no variables

Arguments that mention a variable are never learned. So a mutation that passes a session is given
variables by the fragments of its own document only.

* `Session.variableFree_table_run`: no usage mentions a variable, after any run.
* `Session.uses_forward_subset_iff`: when a mutation is given no variable.
-/

namespace SelectionRecall.Session

/-- No usage in the table mentions a variable, after any run that starts so. -/
theorem variableFree_table_run {session : Session} (h : session.table.VariableFree)
    (steps : List Step) : (session.run steps).table.VariableFree :=
  table_run_induction (fun _ document htable => htable.mergeAll_usages document _) h steps

/-- **When a mutation is given no variable.** After any run of a session that starts with nothing
learned, an operation in the document of a mutation that passes uses no variable that it did not use
before, just if each fragment that it reaches along spreads and loans, but not along spreads alone, only
has variables that it used before, apart from those of its markers. -/
theorem uses_forward_subset_iff (schema : Schema) (options : MarkerOptions) (steps : List Step)
    {mutation : Operation} (hmutation : mutation.intent = .run .mutation) {index : Nat}
    {operation : OperationDefinition}
    (h : mutation.document.definitions[index]? = some (.operation operation)) :
    let session := (start schema options .empty).run steps
    let passed := (session.forward mutation).1.document
    ∃ expanded, passed.definitions[index]? = some (.operation expanded) ∧
      ((∀ name, passed.Uses (.operation expanded) name →
          mutation.document.Uses (.operation operation) name) ↔
        ∀ fragment ∈ mutation.document.fragments,
          session.drain.expansion.ReachesByLoans mutation.document (.operation operation)
            fragment.name →
          ¬ mutation.document.Reaches (.operation operation) fragment.name →
          ∀ name ∈ session.drain.expansion.keptVariables (.fragment fragment),
            mutation.document.Uses (.operation operation) name) := by
  intro session passed
  have hempty : (start schema options .empty).table.VariableFree := by
    simp [UsageTable.VariableFree, start, UsageTable.empty]
  have htable : session.drain.expansion.table.VariableFree := by
    have hrun : session.drain = _ := run_drain (start schema options .empty) steps
    rw [hrun]; exact variableFree_table_run hempty _
  have hpassed : passed = session.drain.expansion.expand mutation.document := by
    obtain ⟨key, intent, document⟩ := mutation
    subst hmutation
    rfl
  rw [hpassed]
  exact Expansion.uses_subset_iff htable h

end SelectionRecall.Session
