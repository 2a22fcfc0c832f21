import Aseman.Finance.Operation

/-!
# Journal records

An operation that moves money between wallets writes a journal record with one entry for every
account it moves money on, and the entries should add up to zero. They do, except for the entries
on a debt account: these carry the change of the debt, where a credit that repays debt would have
to be booked with the opposite sign. The sum of a record's entries is twice what the debts grew by.
-/

namespace Aseman.Finance

open Json Ledger
open Book (post_apply ofRows)

/-! ## Entries -/

/-- The entries of a journal record, if it carries any. -/
def Journal.entries (j : Journal) : Option (List Value) :=
  (j.payload.get "entries").bind Value.asArray

end Aseman.Finance
