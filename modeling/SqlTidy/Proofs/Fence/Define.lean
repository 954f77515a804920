import SqlTidy.Proofs.Fence.Sequence

/-!
# Definitions of tables up to a fence

The rules for `CREATE TABLE`, one lemma for each (`Firm`). Two of them ask whether a closing parenthesis comes next, so for these
the fence has to be the same token in both inputs (`Fence.Alike`).
-/

namespace SqlTidy

open Parse

theorem Parse.Echoes.rule {α : Type} {f : Fence} {u : List Symbol} {phrase : List String} {p : Parse α}
    {rules : List (List String × Parse α)} (h : Firm f u p) (hrest : Firm f u (chooseRule rules)) :
    Firm f u (chooseRule ((phrase, p) :: rules)) := by
  rw [chooseRule_cons]
  exact (firm_acceptWords phrase).bind fun _ => .ite h.map hrest

namespace Grammar

variable {f : Fence} {u : List Symbol}

theorem firm_isColumnList : Firm f u isColumnList :=
  (firm_isSymbol _ (by decide)).bind fun _ => .ite firm_isQueryStart.map (.pure _)

theorem firm_columnPosition : Firm f u columnPosition :=
  (firm_acceptWord _).bind fun _ => .ite (.pure _) <|
    (firm_acceptWord _).bind fun _ => .ite firm_dottedName.map (.pure _)

theorem firm_columnDefinition : Firm f u columnDefinition := by
  refine firm_dottedName.bind fun _ => firm_dataType.bind fun _ => (firm_acceptWords _).bind fun _ => ?_
  refine (Echoes.maybe (firm_acceptWord _) firm_expression).bind fun _ => ?_
  exact (firm_optionalString _).bind fun _ => firm_columnPosition.map

theorem firm_columnDefinitions : Firm f u columnDefinitions :=
  (echoes_expect rfl).bind fun _ => firm_columnDefinition.commaSeparated.bind fun _ => (echoes_expect rfl).bind fun _ => .pure _

theorem firm_propertyKey : Firm f u propertyKey := by
  intro pos hat
  refine .current ?_
  rcases hat.before_or with hbefore | ⟨-, hleft | hleft, hright | hright⟩
  · rw [hbefore.tokenAt_eq]
    split
    · exact .of hat firm_stringLiteral
    · exact .of hat firm_dottedName.map
  all_goals
    rw [hleft, hright]
    exact .of hat firm_dottedName.map

theorem firm_sortedBy : Firm f u sortedBy :=
  .maybeList (firm_acceptWords _) <| (echoes_expect rfl).bind fun _ =>
    (firm_within fun _ _ h => tracks_orderItems h).bind fun _ => (echoes_expect rfl).bind fun _ => .pure _

theorem firm_bucketSpec : Firm f u bucketSpec := by
  refine firm_identifierList.bind fun _ => firm_sortedBy.bind fun _ => (firm_expectWord _).bind fun _ => ?_
  exact firm_number.bind fun _ => (firm_expectWord _).bind fun _ => .pure _

theorem firm_acceptAsQuery : Firm f u acceptAsQuery :=
  (firm_acceptWord _).bind fun _ => .ite (.pure _) firm_isQueryStart

section

variable (h : f.Alike)

include h

theorem firm_isPropertyEnd : Firm f u isPropertyEnd := by
  intro pos hat
  refine .current ?_
  rw [h.tokenAt_eq hat]
  split <;> exact .of hat (.pure _)

theorem firm_propertyValue : Firm f u propertyValue :=
  (firm_accept _ rfl).bind fun _ => .ite firm_expression.map <|
    (firm_isPropertyEnd h).bind fun _ => .ite (.pure _) firm_expression.map

theorem firm_property : Firm f u property := firm_propertyKey.bind fun _ => (firm_propertyValue h).map

theorem firm_properties : Firm f u properties := by
  refine (echoes_expect rfl).bind fun _ => .accept (v := u) rfl (.pure []) ?_
  exact (firm_property h).commaSeparated.bind fun _ => (echoes_expect rfl).bind fun _ => .pure _

theorem firm_partitionField : Firm f u partitionField := by
  intro pos hat
  have hexpr : Firm f u (do return PartitionField.transform (← expression)) := firm_expression.map
  refine .peek (.current ?_)
  rw [h.tokenAt_eq hat]
  by_cases hname : isIdentifier (f.left.tokenAt pos) = true
  · have hnext : f.At u (pos + 1) := (before_of_isIdentifier hat hname).next u (nest_of_isIdentifier hname u)
    rw [h.tokenAt_eq hnext, hname]
    simp only [Bool.not_true, Bool.false_eq_true, if_false]
    split
    · exact .of hat firm_identifier.map
    · exact .of hat firm_identifier.map
    · exact .of hat (firm_identifier.bind fun _ => firm_dataType.map)
    · exact .of hat hexpr
  · rw [Bool.eq_false_iff.2 hname]
    exact .of hat hexpr

theorem firm_partitionFields : Firm f u partitionFields :=
  (echoes_expect rfl).bind fun _ => (firm_partitionField h).commaSeparated.bind fun _ => (echoes_expect rfl).bind fun _ => .pure _

theorem firm_tableClauseRules : Firm f u (chooseRule tableClauseRules) := by
  refine .rule firm_identifierList.map ?_
  refine .rule (firm_partitionFields h).map ?_
  refine .rule firm_bucketSpec.map ?_
  refine .rule firm_identifier.map ?_
  refine .rule firm_stringLiteral.map ?_
  refine .rule firm_number.map ?_
  refine .rule (firm_properties h).map ?_
  refine .rule (firm_properties h).map ?_
  exact .rule firm_stringLiteral.map (.pure none)

theorem firm_tableClauses : Firm f u tableClauses := (firm_tableClauseRules h).many.map

end

end Grammar

end SqlTidy
