import GroupBench.Id.Text
import GroupBench.Decimal.Shortest

/-! Why an operation was turned down, and how each cause is worded. -/
namespace GroupBench

/-- A store turned a write or a lookup down. A run counts such faults and goes on. -/
inductive StoreFault
  | writeRefused (level : UInt16)
  | lookupRefused (id : GroupId)
  | tokenLength (length : Nat)
  | tokenPosition (position batchLength : Nat)
  deriving DecidableEq, Inhabited

/-- A token that no lookup over the batch wrote is told apart from a failing store. -/
def StoreFault.isToken : StoreFault → Bool
  | .writeRefused _ | .lookupRefused _ => false
  | .tokenLength _ | .tokenPosition .. => true

def StoreFault.message : StoreFault → String
  | .writeRefused level => s!"Backend error: write refused at level {level}"
  | .lookupRefused id => s!"Backend error: lookup of {id} refused"
  | .tokenLength length => s!"Invalid page state: unexpected token length {length}"
  | .tokenPosition position batchLength =>
    s!"Invalid page state: position {position} beyond batch of {batchLength}"

/-- A configuration cannot be run. No worker starts. -/
inductive ConfigFault
  | noLevels
  | noFirstLevelGroups
  | growthFactor (factor : Float)
  | emptyLevel (level : UInt16)
  | tooManyGroups (level : UInt16) (groups limit : Float)
  | tooManyMembers (level : UInt16) (members limit : Float)
  | noWorkers
  | noInstances
  | instanceOutside (instanceId instanceCount : UInt32)

def ConfigFault.reason : ConfigFault → String
  | .noLevels => "level_count must be greater than 0"
  | .noFirstLevelGroups => "first_level_group_count must be greater than 0"
  | .growthFactor factor =>
    s!"growth_factor ({Decimal.shortest factor}) must be a positive finite number"
  | .emptyLevel level => s!"level {level} would contain no groups"
  | .tooManyGroups level groups limit =>
    s!"level {level} would contain {Decimal.shortest groups} groups " ++
      s!"(max = {Decimal.shortest limit})"
  | .tooManyMembers level members limit =>
    s!"level {level} groups would own {Decimal.shortest members} members " ++
      s!"(max = {Decimal.shortest limit})"
  | .noWorkers => "workers must be greater than 0"
  | .noInstances => "instance_count must be greater than 0"
  | .instanceOutside instanceId instanceCount =>
    s!"instance_id ({instanceId}) must be within 1..={instanceCount}"

def ConfigFault.message (fault : ConfigFault) : String := s!"Invalid config: {fault.reason}"

end GroupBench
