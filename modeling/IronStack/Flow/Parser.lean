import IronStack.Flow.Entry

/-!
# `flow_parser`

Flows that came in as access-control entries are turned into entries of the
switch's L2 table, which is matched on the destination MAC address alone. What
cannot be turned is handed back as it is. The loading and saving of flows is not
modelled: the parser is the list of flows it has loaded.
-/

namespace IronStack

/-- `of_action::get_action_type() == OUTPUT_TO_PORT`. -/
def OfAction.isOutputToPort : OfAction → Bool
  | .outputToPort _ _ => true
  | _ => false

/-- `flow_parser`. -/
structure FlowParser where
  flows : List FlowDescription

namespace FlowParser

/-- The outer check: the fields that `translate_to_l2` wants to be wildcarded. -/
def candidateCriteria (criteria : OfMatch) : Bool :=
  criteria.wildcardEthernetSrc &&
  criteria.wildcardVlanId &&
  criteria.wildcardVlanPcp &&
  criteria.wildcardEthernetFrameType &&
  criteria.wildcardIpTypeOfService &&
  criteria.wildcardIpProtocol &&
  criteria.wildcardIpSrcLsbCount == 32 &&
  criteria.wildcardIpDestLsbCount == 32 &&
  criteria.wildcardTcpudpSrcPort &&
  criteria.wildcardTcpudpDestPort

/-- The inner check: a destination address, and one action, an output to a port. -/
def outputsByDest (flow : FlowDescription) : Bool :=
  !flow.criteria.wildcardEthernetDest &&
  match flow.actionList.actions with
  | [action] => action.isOutputToPort
  | _ => false

/-- The flow for the L2 table: a fresh description, whose match is all wildcards but for the
destination address. -/
def l2Flow (flow : FlowDescription) : FlowDescription where
  criteria :=
    { OfMatch.clear.wildcardAll with
      wildcardEthernetDest := false
      ethernetDest := flow.criteria.ethernetDest }
  actionList := flow.actionList
  cookie := flow.cookie
  priority := flow.priority

/-- What `translate_to_l2` fills in: its two results. -/
structure Translation where
  translatedFlows : List FlowDescription
  untranslatedFlows : List FlowDescription

/-- The body of the loop over the flows. -/
def translateFlow (out : Translation) (flow : FlowDescription) : Translation :=
  if candidateCriteria flow.criteria then
    if outputsByDest flow then
      { out with translatedFlows := out.translatedFlows ++ [l2Flow flow] }
    else
      { out with untranslatedFlows := out.untranslatedFlows ++ [flow] }
  else
    { out with untranslatedFlows := out.untranslatedFlows ++ [flow] }

/-- `flow_parser::translate_to_l2`, with the number of flows translated. -/
def translateToL2 (parser : FlowParser) : Translation × UInt32 :=
  let out := parser.flows.foldl translateFlow ⟨[], []⟩
  (out, out.translatedFlows.length.toUInt32)

/-- The flows that are translated. -/
def translates (flow : FlowDescription) : Bool := candidateCriteria flow.criteria && outputsByDest flow

theorem translateFlow_eq (out : Translation) (flow : FlowDescription) :
    translateFlow out flow =
      if translates flow then { out with translatedFlows := out.translatedFlows ++ [l2Flow flow] }
      else { out with untranslatedFlows := out.untranslatedFlows ++ [flow] } := by
  unfold translateFlow translates
  cases candidateCriteria flow.criteria <;> cases outputsByDest flow <;> rfl

/-- The loop sorts the flows, one list each, and leaves their order as it is. -/
theorem foldl_translateFlow (flows : List FlowDescription) (out : Translation) :
    flows.foldl translateFlow out =
      ⟨out.translatedFlows ++ (flows.filter translates).map l2Flow,
        out.untranslatedFlows ++ flows.filter fun flow => !translates flow⟩ := by
  induction flows generalizing out with
  | nil => simp
  | cons flow flows ih =>
      rw [List.foldl_cons, ih, translateFlow_eq]
      cases htranslates : translates flow <;> simp [htranslates]

theorem translateToL2_eq (parser : FlowParser) :
    parser.translateToL2.1 =
      ⟨(parser.flows.filter translates).map l2Flow,
        parser.flows.filter fun flow => !translates flow⟩ := by
  simp [translateToL2, foldl_translateFlow]

end FlowParser

end IronStack
