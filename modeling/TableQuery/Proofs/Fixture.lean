import TableQuery.Database
import TableQuery.Proofs.Value.Fields

namespace TableQuery

abbrev Tables := List (String × List Value)

namespace Tables

def fields (tables : Tables) : Fields := tables.map fun table => (table.1, .array table.2)

end Tables

namespace Store

variable {store : Store} {tables : Tables} {fixture : Value}

end Store

namespace Database

end Database

end TableQuery
